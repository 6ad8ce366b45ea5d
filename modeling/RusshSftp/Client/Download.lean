import RusshSftp.Client.WholeFile

/-!
# `read_to_end` on a file

The loop reads at the cursor until a read adds nothing.  The server chooses how much it gives, and
may fail; what the caller's vector has by then is a front of the rest of the content.  The
loop goes on for as long as the cursor is before the end of the content.
-/

set_option autoImplicit false

namespace RusshSftp.Client

/-- tokio's `read_to_end` with the vector of its caller. -/
def readInto : List (Nat × Turn) → File → Bytes → Poll Unit × Bytes × File × List Request
  | [], f, vec => (.pending, vec, f, [])
  | (room, turn) :: polls, f, vec =>
      let (polled, buf) := f.pollRead (.empty room) turn
      match polled.poll with
      | .pending =>
          let (last, vec, f, later) := readInto polls polled.file vec
          (last, vec, f, polled.sent ++ later)
      | .panicked => (.panicked, vec, polled.file, polled.sent)
      | .ready (.error e) => (.ready (.error e), vec, polled.file, polled.sent)
      | .ready (.ok ()) =>
          if buf.filled.isEmpty then (.ready (.ok ()), vec, polled.file, polled.sent)
          else
            let (last, vec, f, later) := readInto polls polled.file (vec ++ buf.filled)
            (last, vec, f, polled.sent ++ later)

/-- READs one after the other: each asks for some length, and is answered by some data. -/
def readsFrom (handle : String) (pos : Nat) : List (UInt32 × Bytes) → List Request
  | [] => []
  | (len, data) :: chunks =>
      .read handle (UInt64.ofNat pos) len :: readsFrom handle (pos + data.length) chunks

/-- The error that a READ ends with. -/
def readError (answer : SftpResult Packet) : Option String :=
  match File.readOutput (answer.bind (intoWithStatus data?)) with
  | .error e => some e
  | .ok _ => none

/-- The error that a poll finds. -/
def Turn.failure (turn : Turn) : Option String := turn.answer.bind readError

/-- Each poll that finds an answer finds a faithful one, or an error. -/
def ServedFrom (content : Bytes) : List (Nat × Turn) → File → Prop
  | [], _ => True
  | (room, turn) :: polls, f =>
      let call := f.state.fRead.getD (f.readCall (.empty room))
      (∀ answer, turn.answer = some answer →
        answers content (.read f.handle call.offset call.len) answer = true ∨
          (readError answer).isSome = true) ∧
      ServedFrom content polls (f.pollRead (.empty room) turn).1.file

/-- Each poll has some room, and the same again while it waits. -/
structure Offered (polls : List (Nat × Turn)) : Prop where
  positive : ∀ poll ∈ polls, 0 < poll.1
  same : polls.IsChain fun poll next => poll.2 = .pending → next.1 = poll.1

/-- A download that has come to its end after the polls `used`, with what each READ has asked for
and got. -/
structure Downloaded (content : Bytes) (f : File) (vec : Bytes) (used : List (Nat × Turn))
    (result : Except String Unit) (vec' : Bytes) (sent : List Request)
    (chunks : List (UInt32 × Bytes)) : Prop where
  tiles : sent = readsFrom f.handle f.pos.toNat chunks
  appended : vec' = vec ++ (chunks.map Prod.snd).flatten
  front : (chunks.map Prod.snd).flatten <+: content.drop f.pos.toNat
  within : ∀ chunk ∈ chunks, 0 < chunk.1.toNat ∧ chunk.1.toNat ≤ f.maxReadLen ∧
    chunk.2.length ≤ chunk.1.toNat
  accepted : ∀ request ∈ sent, request.operation.limited f.limits 0 = none
  whole : result = .ok () → (chunks.map Prod.snd).flatten = content.drop f.pos.toNat
  /-- The error is that of the last poll. -/
  ended : ∀ e, result = .error e → ∃ before last, used = before ++ [last] ∧
    last.2.failure = some e
  /-- No READ before the last one has failed. -/
  fails : ∀ poll ∈ used, ∀ e, poll.2.failure = some e → result = .error e

/-! ## One poll of the loop -/

/-- Some requests, and then what is left of the loop. -/
def askedBefore (sent : List Request) (left : Poll Unit × Bytes × File × List Request) :
    Poll Unit × Bytes × File × List Request :=
  (left.1, left.2.1, left.2.2.1, sent ++ left.2.2.2)

namespace File

variable {f : File}

/-- No read is pending, or the one of a buffer with this room is. -/
def Downloads (f : File) (room : Nat) : Prop :=
  f.state.fRead = none ∨ f.state.fRead = some (f.readCall (.empty room))

theorem Downloads.call {room : Nat} (downloads : f.Downloads room) :
    f.state.fRead.getD (f.readCall (.empty room)) = f.readCall (.empty room) := by
  rcases downloads with idle | busy
  · rw [idle, Option.getD_none]
  · rw [busy, Option.getD_some]

/-- What the pending read has sent. -/
def readAsked (f : File) : List Request :=
  (f.state.fRead.map fun call => .read f.handle call.offset call.len).toList

/-- With the first poll or with this one, the READ is sent once. -/
theorem readAsked_append {room : Nat} (downloads : f.Downloads room) {turn : Turn}
    (goes : turn.refuses = false) :
    f.readAsked ++ (f.pollRead (.empty room) turn).1.sent = [f.readRequest (.empty room)] := by
  rw [readAsked, pollRead_sent, goes]
  rcases downloads with idle | busy
  · simp [idle]
  · simp [busy, readRequest]

/-- It is not sent if the session refuses the first poll. -/
theorem readAsked_once {room : Nat} (downloads : f.Downloads room) (turn : Turn) :
    f.readAsked ++ (f.pollRead (.empty room) turn).1.sent = [] ∨
      f.readAsked ++ (f.pollRead (.empty room) turn).1.sent = [f.readRequest (.empty room)] := by
  cases goes : turn.refuses with
  | false => exact .inr (readAsked_append downloads goes)
  | true =>
      rw [readAsked, pollRead_sent, goes]
      rcases downloads with idle | busy
      · simp [idle]
      · simp [busy, readRequest]

theorem readRequest_eq (f : File) (room : Nat) :
    f.readRequest (.empty room) =
      .read f.handle (UInt64.ofNat f.pos.toNat) (f.readCall (.empty room)).len := by
  rw [UInt64.ofNat_toNat]
  rfl

end File

section
variable {f : File} {room : Nat}

theorem readInto_pending (room : Nat) (polls : List (Nat × Turn)) (f : File) (vec : Bytes) :
    readInto ((room, .pending) :: polls) f vec =
      askedBefore (f.pollRead (.empty room) .pending).1.sent (readInto polls
        { f with state.fRead := some (f.state.fRead.getD (f.readCall (.empty room))) } vec) := by
  obtain ⟨waits, after, same⟩ := f.pollRead_pending (.empty room)
  simp only [readInto, waits, after]
  rfl

theorem readInto_error {turn : Turn} {e : String} (fails : turn.failure = some e) (room : Nat)
    (polls : List (Nat × Turn)) (f : File) (vec : Bytes) :
    readInto ((room, turn) :: polls) f vec =
      (.ready (.error e), vec, { f with state.fRead := none },
        (f.pollRead (.empty room) turn).1.sent) := by
  obtain ⟨answer, answered, fails⟩ := Option.bind_eq_some_iff.mp fails
  have output : File.readOutput (answer.bind (intoWithStatus data?)) = .error e := by
    rw [readError] at fails
    split at fails
    · cases fails
      assumption
    · cases fails
  have polled : (f.pollRead (.empty room) turn).1.poll = .ready (.error e) ∧
      (f.pollRead (.empty room) turn).1.file = { f with state.fRead := none } := by
    rw [File.pollRead_eq, answered]
    simp only [File.finishRead, output, and_self]
  simp only [readInto, polled.1, polled.2]

theorem readInto_data {room : Nat} {p : Data} (some : p.data ≠ []) (fits : p.data.length ≤ room)
    (polls : List (Nat × Turn)) (f : File) (vec : Bytes) :
    readInto ((room, .ready (.ok (.data p))) :: polls) f vec =
      askedBefore (f.pollRead (.empty room) (.ready (.ok (.data p)))).1.sent (readInto polls
        { f with state.fRead := none, pos := f.pos + UInt64.ofNat p.data.length }
        (vec ++ p.data)) := by
  have room' : p.data.length ≤ (ReadBuf.empty room).remaining := fits
  obtain ⟨after, filled⟩ := f.pollRead_data (.empty room) p
  rw [ReadBuf.putSlice, dif_pos room', Prod.mk.injEq] at filled
  have more : ((ReadBuf.empty room).filled ++ p.data).isEmpty = false := by
    rw [List.isEmpty_eq_false_iff]
    simpa [ReadBuf.empty] using some
  simp only [readInto, filled, after, more]
  rfl

theorem failure_eof {p : Status} (code : p.statusCode = .eof) :
    Turn.failure (.ready (.ok (.status p))) = none := by
  have output : File.readOutput (intoWithStatus data? (.status p)) = .ok none := by
    show (if p.statusCode = .eof then Except.ok none else _) = _
    rw [if_pos code]
  show readError (.ok (.status p)) = none
  simp only [readError, Except.bind, output]

theorem readInto_eof {p : Status} (code : p.statusCode = .eof) (room : Nat)
    (polls : List (Nat × Turn)) (f : File) (vec : Bytes) :
    readInto ((room, .ready (.ok (.status p))) :: polls) f vec =
      (.ready (.ok ()), vec, { f with state.fRead := none },
        (f.pollRead (.empty room) (.ready (.ok (.status p)))).1.sent) := by
  obtain ⟨ends, after, same⟩ := f.pollRead_eof (.empty room) p code
  simp only [readInto, ends, after, same]
  rfl

/-- What one poll does: it waits, the READ fails or finds the end of the content, or it brings some
bytes from the cursor and the loop goes on behind them. -/
inductive Outcome (content : Bytes) (f : File) (room : Nat) :
    Turn → List (Nat × Turn) → Bytes → Prop where
  | waits {polls : List (Nat × Turn)} {vec : Bytes}
      (loop : readInto ((room, .pending) :: polls) f vec =
        askedBefore (f.pollRead (.empty room) .pending).1.sent (readInto polls
          { f with state.fRead := some (f.readCall (.empty room)) } vec)) :
      Outcome content f room .pending polls vec
  | fails {turn : Turn} {e : String} {polls : List (Nat × Turn)} {vec : Bytes}
      (failed : turn.failure = some e)
      (loop : readInto ((room, turn) :: polls) f vec =
        (.ready (.error e), vec, { f with state.fRead := none },
          (f.pollRead (.empty room) turn).1.sent)) :
      Outcome content f room turn polls vec
  | ends {turn : Turn} {polls : List (Nat × Turn)} {vec : Bytes} (goes : turn.refuses = false)
      (calm : turn.failure = none) (ended : content.length ≤ f.pos.toNat)
      (loop : readInto ((room, turn) :: polls) f vec =
        (.ready (.ok ()), vec, { f with state.fRead := none },
          (f.pollRead (.empty room) turn).1.sent)) :
      Outcome content f room turn polls vec
  | brings {p : Data} {polls : List (Nat × Turn)} {vec : Bytes} (some : p.data ≠ [])
      (bound : p.data.length ≤ (f.readCall (.empty room)).len.toNat)
      (part : p.data <+: content.drop f.pos.toNat)
      (loop : readInto ((room, .ready (.ok (.data p))) :: polls) f vec =
        askedBefore (f.pollRead (.empty room) (.ready (.ok (.data p)))).1.sent (readInto polls
          { f with state.fRead := none, pos := f.pos + UInt64.ofNat p.data.length }
          (vec ++ p.data))) :
      Outcome content f room (.ready (.ok (.data p))) polls vec

theorem readInto_cons {content : Bytes} (downloads : f.Downloads room) (offered : 0 < room)
    (positive : 0 < f.maxReadLen) (few : f.maxReadLen < 2 ^ 32) {turn : Turn}
    (served : ∀ answer, turn.answer = some answer →
      answers content (.read f.handle f.pos (f.readCall (.empty room)).len) answer = true ∨
        (readError answer).isSome = true)
    (polls : List (Nat × Turn)) (vec : Bytes) : Outcome content f room turn polls vec := by
  have len : (f.readCall (.empty room)).len.toNat = min room f.maxReadLen :=
    f.readCall_len (.empty room) (by omega)
  cases answered : turn.answer with
  | none =>
      cases turn with
      | pending =>
          apply Outcome.waits
          rw [readInto_pending, downloads.call]
      | _ => cases answered
  | some answer =>
      rcases served answer answered with faithful | fails
      · obtain rfl : turn = .ready answer := by
          cases turn with
          | ready result => cases answered; rfl
          | pending => cases answered
          | refused err => cases answered; cases faithful
        rcases answered_read faithful with
          ⟨zero, -⟩ | ⟨p, rfl, some, bound, part⟩ | ⟨p, rfl, code, ended⟩
        · rw [zero, UInt32.toNat_zero] at len
          omega
        · exact .brings some bound part (readInto_data some (by omega) polls f vec)
        · exact .ends rfl (failure_eof code) ended (readInto_eof code room polls f vec)
      · obtain ⟨e, fails⟩ := Option.isSome_iff_exists.mp fails
        have failed : turn.failure = some e := by
          rw [Turn.failure, answered]
          exact fails
        exact .fails failed (readInto_error failed room polls f vec)

end

/-! ## What is left after one poll -/

theorem Offered.tail {poll : Nat × Turn} {polls : List (Nat × Turn)}
    (offered : Offered (poll :: polls)) : Offered polls where
  positive next member := offered.positive next (List.mem_cons_of_mem _ member)
  same := offered.same.tail

/-- The poll after one that waits has the same room. -/
theorem Offered.waiting {room : Nat} {polls : List (Nat × Turn)}
    (offered : Offered ((room, .pending) :: polls)) (f : File) :
    ∀ poll ∈ polls.head?,
      File.Downloads { f with state.fRead := some (f.readCall (.empty room)) } poll.1 := by
  intro poll first
  have same : poll.1 = room := (List.isChain_cons.mp offered.same).1 poll first rfl
  rw [same]
  exact .inr rfl

/-- The content behind a part of it. -/
theorem drop_prefix {content data : Bytes} {n : Nat} (part : data <+: content.drop n) :
    content.drop n = data ++ content.drop (n + data.length) := by
  obtain ⟨rest, shape⟩ := part
  rw [← List.drop_drop, ← shape, List.drop_left]

namespace Downloaded

section
variable {content vec vec' : Bytes} {f : File} {used : List (Nat × Turn)} {room : Nat}
  {turn : Turn} {result : Except String Unit} {sent : List Request}
  {chunks : List (UInt32 × Bytes)}

/-- A poll that waits leaves what the file downloads as it is. -/
theorem wait {slot : Option ReadCall}
    (later : Downloaded content { f with state.fRead := slot } vec used result vec' sent chunks) :
    Downloaded content f vec ((room, .pending) :: used) result vec' sent chunks where
  tiles := later.tiles
  appended := later.appended
  front := later.front
  within := later.within
  accepted := later.accepted
  whole := later.whole
  ended e isError := by
    obtain ⟨before, last, rfl, failed⟩ := later.ended e isError
    exact ⟨(room, .pending) :: before, last, rfl, failed⟩
  fails poll member e failed := by
    rcases List.mem_cons.mp member with rfl | member
    · cases failed
    · exact later.fails poll member e failed

/-- The last READ brings nothing, if it was sent at all. -/
theorem last (vec : Bytes) (within : 0 < (f.readCall (.empty room)).len.toNat ∧
      (f.readCall (.empty room)).len.toNat ≤ f.maxReadLen)
    (asks : sent = [] ∨ sent = [f.readRequest (.empty room)])
    (ok : result = .ok () → content.length ≤ f.pos.toNat)
    (error : ∀ e, turn.failure = some e ↔ result = .error e) :
    ∃ chunks, Downloaded content f vec [(room, turn)] result vec sent chunks := by
  have ended : ∀ e, result = .error e →
      ∃ before last, [(room, turn)] = before ++ [last] ∧ last.2.failure = some e :=
    fun e isError => ⟨[], (room, turn), rfl, (error e).mpr isError⟩
  have fails : ∀ poll ∈ [(room, turn)], ∀ e, poll.2.failure = some e → result = .error e := by
    intro poll member e failed
    rw [List.mem_singleton.mp member] at failed
    exact (error e).mp failed
  have whole : result = .ok () → [] = content.drop f.pos.toNat := fun isOk =>
    (List.drop_eq_nil_of_le (ok isOk)).symm
  rcases asks with rfl | rfl
  · exact ⟨[], rfl, (List.append_nil vec).symm, List.nil_prefix, by simp, by simp, whole, ended,
      fails⟩
  · have accepted : ∀ request ∈ [f.readRequest (.empty room)],
        request.operation.limited f.limits 0 = none := by
      intro request member
      rw [List.mem_singleton.mp member]
      exact f.readCall_unlimited (.empty room)
    refine ⟨[((f.readCall (.empty room)).len, [])], by rw [f.readRequest_eq]; rfl,
      (List.append_nil vec).symm, List.nil_prefix, ?_, accepted, whole, ended, fails⟩
    intro chunk member
    rw [List.mem_singleton.mp member]
    exact ⟨within.1, within.2, Nat.zero_le _⟩

/-- A READ that brings some bytes comes before what is downloaded from their end. -/
theorem next {g : File} {data : Bytes} {later : List Request}
    (within : 0 < (f.readCall (.empty room)).len.toNat ∧
      (f.readCall (.empty room)).len.toNat ≤ f.maxReadLen)
    (bound : data.length ≤ (f.readCall (.empty room)).len.toNat)
    (part : data <+: content.drop f.pos.toNat)
    (handle : g.handle = f.handle) (extensions : g.extensions = f.extensions)
    (moved : g.pos.toNat = f.pos.toNat + data.length) (calm : turn.failure = none)
    (downloaded : Downloaded content g (vec ++ data) used result vec' later chunks) :
    Downloaded content f vec ((room, turn) :: used) result vec'
      (f.readRequest (.empty room) :: later)
      (((f.readCall (.empty room)).len, data) :: chunks) := by
  have limits : g.limits = f.limits := by rw [File.limits, extensions, File.limits]
  have most : g.maxReadLen = f.maxReadLen := by
    rw [File.maxReadLen, extensions, File.maxReadLen]
  have rest := drop_prefix part
  obtain ⟨tiles, appended, front, lengths, checked, all, ended, fails⟩ := downloaded
  rw [handle, moved] at tiles
  rw [moved] at front all
  rw [most] at lengths
  rw [limits] at checked
  constructor
  · rw [tiles, f.readRequest_eq]
    rfl
  · rw [appended, List.map_cons, List.flatten_cons, List.append_assoc]
  · rw [List.map_cons, List.flatten_cons, rest]
    exact (List.prefix_append_right_inj data).mpr front
  · intro chunk member
    rcases List.mem_cons.mp member with rfl | member
    · exact ⟨within.1, within.2, bound⟩
    · exact lengths chunk member
  · intro request member
    rcases List.mem_cons.mp member with rfl | member
    · exact f.readCall_unlimited (.empty room)
    · exact checked request member
  · intro ok
    rw [List.map_cons, List.flatten_cons, all ok, rest]
  · intro e isError
    obtain ⟨before, last, rfl, failed⟩ := ended e isError
    exact ⟨(room, turn) :: before, last, rfl, failed⟩
  · intro poll member e failed
    rcases List.mem_cons.mp member with rfl | member
    · rw [calm] at failed
      cases failed
    · exact fails poll member e failed

end

end Downloaded

/-! ## The loop -/

theorem askedBefore_inv {left : Poll Unit × Bytes × File × List Request}
    {first sent : List Request} {last : Poll Unit} {vec : Bytes} {f : File}
    (done : askedBefore first left = (last, vec, f, sent)) :
    ∃ later, left = (last, vec, f, later) ∧ sent = first ++ later := by
  cases done
  exact ⟨left.2.2.2, rfl, rfl⟩

section
variable {content : Bytes} {fsync : Bool} {limits : Option LimitsExtension}

/-- With limits of at most `2 ^ 31` bytes no length is cut off. -/
theorem maxReadLen_few {f : File} (negotiated : f.extensions = .negotiated fsync limits)
    (most : ∀ l, limits = some l → l.maxReadLen.toNat ≤ 2 ^ 31) : f.maxReadLen < 2 ^ 32 := by
  have bound : f.maxReadLen ≤ 2 ^ 31 := File.maxReadLen_le negotiated (by decide) most
  omega

/-- The cursor behind the bytes of a READ. -/
theorem moved_behind {f : File} {data : Bytes} (small : content.length < 2 ^ 64)
    (some : data ≠ []) (part : data <+: content.drop f.pos.toNat) :
    (f.pos + UInt64.ofNat data.length).toNat = f.pos.toNat + data.length ∧
      f.pos.toNat + data.length ≤ content.length := by
  have length := part.length_le
  have length' := List.length_pos_of_ne_nil some
  rw [List.length_drop] at length
  exact ⟨add_length (by omega), by omega⟩

/-- What is known of a file and the polls to come. -/
structure Running (content : Bytes) (fsync : Bool) (limits : Option LimitsExtension)
    (polls : List (Nat × Turn)) (f : File) : Prop where
  negotiated : f.extensions = .negotiated fsync limits
  offered : Offered polls
  head : ∀ poll ∈ polls.head?, f.Downloads poll.1
  served : ServedFrom content polls f

namespace Running

variable {polls : List (Nat × Turn)} {f : File} {room : Nat} {turn : Turn}

theorem downloads (running : Running content fsync limits ((room, turn) :: polls) f) :
    f.Downloads room := running.head (room, turn) rfl

/-- A READ asks for something. -/
theorem asks (running : Running content fsync limits ((room, turn) :: polls) f)
    (most : ∀ l, limits = some l → l.maxReadLen.toNat ≤ 2 ^ 31) :
    0 < (f.readCall (.empty room)).len.toNat ∧
      (f.readCall (.empty room)).len.toNat ≤ f.maxReadLen := by
  have some_room : 0 < room := running.offered.positive (room, turn) List.mem_cons_self
  have positive := File.maxReadLen_pos running.negotiated
  have few := maxReadLen_few running.negotiated most
  have len : (f.readCall (.empty room)).len.toNat = min room f.maxReadLen :=
    f.readCall_len (.empty room) (by omega)
  omega

theorem wait (running : Running content fsync limits ((room, .pending) :: polls) f) :
    Running content fsync limits polls
      { f with state.fRead := some (f.readCall (.empty room)) } where
  negotiated := running.negotiated
  offered := running.offered.tail
  head := running.offered.waiting f
  served := by
    have after := running.served.2
    rw [(f.pollRead_pending (.empty room)).2.1, running.downloads.call] at after
    exact after

theorem next {p : Data}
    (running : Running content fsync limits ((room, .ready (.ok (.data p))) :: polls) f) :
    Running content fsync limits polls
      { f with state.fRead := none, pos := f.pos + UInt64.ofNat p.data.length } where
  negotiated := running.negotiated
  offered := running.offered.tail
  head _ _ := .inl rfl
  served := by
    have after := running.served.2
    rw [(f.pollRead_data (.empty room) p).1] at after
    exact after

/-- What the next poll does. -/
theorem outcome (running : Running content fsync limits ((room, turn) :: polls) f)
    (most : ∀ l, limits = some l → l.maxReadLen.toNat ≤ 2 ^ 31) (vec : Bytes) :
    Outcome content f room turn polls vec := by
  have some_room : 0 < room := running.offered.positive (room, turn) List.mem_cons_self
  have here := running.served.1
  rw [running.downloads.call] at here
  exact readInto_cons running.downloads some_room (File.maxReadLen_pos running.negotiated)
    (maxReadLen_few running.negotiated most) here polls vec

end Running

/-- A download that has come to its end has downloaded the content, up to the READ that failed. -/
theorem downloaded_of_ready (most : ∀ l, limits = some l → l.maxReadLen.toNat ≤ 2 ^ 31)
    (small : content.length < 2 ^ 64) {polls : List (Nat × Turn)} {f f' : File}
    {vec vec' : Bytes} {result : Except String Unit} {sent : List Request}
    (running : Running content fsync limits polls f)
    (done : readInto polls f vec = (.ready result, vec', f', sent)) :
    ∃ used rest chunks, polls = used ++ rest ∧
      Downloaded content f vec used result vec' (f.readAsked ++ sent) chunks := by
  induction polls generalizing f vec sent with
  | nil => simp [readInto] at done
  | cons poll polls ih =>
      obtain ⟨room, turn⟩ := poll
      have downloads := running.downloads
      have within := running.asks most
      cases running.outcome most vec with
      | waits loop =>
          rw [loop] at done
          obtain ⟨later, left, rfl⟩ := askedBefore_inv done
          obtain ⟨used, rest, chunks, shape, downloaded⟩ := ih running.wait left
          refine ⟨(room, .pending) :: used, rest, chunks, by rw [shape]; rfl, ?_⟩
          rw [← List.append_assoc, File.readAsked_append downloads rfl]
          exact downloaded.wait
      | fails failed loop =>
          rename_i e
          rw [loop] at done
          cases done
          have only : ∀ e', turn.failure = some e' ↔
              (Except.error e : Except String Unit) = .error e' := by
            intro e'
            rw [failed, Option.some.injEq, Except.error.injEq]
          obtain ⟨chunks, downloaded⟩ : ∃ chunks, Downloaded content f vec' [(room, turn)] _ vec'
              _ chunks := Downloaded.last vec' within (File.readAsked_once downloads turn)
              (fun ok => by cases ok) only
          exact ⟨[(room, turn)], polls, chunks, rfl, downloaded⟩
      | ends goes calm ended loop =>
          rw [loop] at done
          cases done
          rw [File.readAsked_append downloads goes]
          obtain ⟨chunks, downloaded⟩ : ∃ chunks, Downloaded content f vec' [(room, turn)] (.ok ())
              vec' [f.readRequest (.empty room)] chunks :=
            Downloaded.last vec' within (.inr rfl) (fun _ => ended) (by simp [calm])
          exact ⟨[(room, turn)], polls, chunks, rfl, downloaded⟩
      | brings some bound part loop =>
          rename_i p
          rw [loop] at done
          obtain ⟨later, left, rfl⟩ := askedBefore_inv done
          obtain ⟨moved, -⟩ := moved_behind small some part
          obtain ⟨used, rest, chunks, shape, downloaded⟩ := ih running.next left
          refine ⟨(room, .ready (.ok (.data p))) :: used, rest,
            ((f.readCall (.empty room)).len, p.data) :: chunks, by rw [shape]; rfl, ?_⟩
          rw [← List.append_assoc, File.readAsked_append downloads rfl]
          exact Downloaded.next (g := { f with
              state.fRead := none, pos := f.pos + UInt64.ofNat p.data.length })
            within bound part rfl rfl moved rfl downloaded

/-- The loop never panics, goes on only while no READ fails, and enough answers bring it to its
end. -/
theorem readInto_ready (most : ∀ l, limits = some l → l.maxReadLen.toNat ≤ 2 ^ 31)
    (small : content.length < 2 ^ 64) {polls : List (Nat × Turn)} {f : File} (vec : Bytes)
    (running : Running content fsync limits polls f) :
    (readInto polls f vec).1 ≠ .panicked ∧
      ((readInto polls f vec).1 = .pending → ∀ poll ∈ polls, poll.2.failure = none) ∧
      (content.length - f.pos.toNat < polls.countP (fun poll => poll.2.answer.isSome) →
        ∃ result, (readInto polls f vec).1 = .ready result) := by
  induction polls generalizing f vec with
  | nil =>
      refine ⟨(fun panics => by cases panics), (fun _ => by simp), fun enough => ?_⟩
      rw [List.countP_nil] at enough
      omega
  | cons poll polls ih =>
      obtain ⟨room, turn⟩ := poll
      cases running.outcome most vec with
      | waits loop =>
          rw [loop]
          obtain ⟨calm, alive, ready⟩ := ih vec running.wait
          exact ⟨calm, fun waits => List.forall_mem_cons.mpr ⟨rfl, alive waits⟩, ready⟩
      | fails _ loop | ends _ _ _ loop =>
          rw [loop]
          exact ⟨(fun panics => by cases panics), (fun waits => by cases waits), fun _ => ⟨_, rfl⟩⟩
      | brings some bound part loop =>
          rename_i p
          rw [loop]
          obtain ⟨moved, bounded⟩ := moved_behind small some part
          have length := List.length_pos_of_ne_nil some
          obtain ⟨calm, alive, ready⟩ := ih (vec ++ p.data) running.next
          refine ⟨calm, fun waits => List.forall_mem_cons.mpr ⟨rfl, alive waits⟩,
            fun enough => ready ?_⟩
          rw [List.countP_cons_of_pos (by rfl)] at enough
          rw [moved]
          omega

end

/-! ## `SftpSession::read` -/

/-- What `read` returns of its vector. -/
def returning (vec : Bytes) : Poll Unit → Poll Bytes
  | .pending => .pending
  | .ready (.ok ()) => .ready (.ok vec)
  | .ready (.error e) => .ready (.error e)
  | .panicked => .panicked

theorem readToEnd_eq (polls : List (Nat × Turn)) (f : File) (read : Bytes) :
    readToEnd polls f read =
      (returning (readInto polls f read).2.1 (readInto polls f read).1,
        (readInto polls f read).2.2) := by
  induction polls generalizing f read with
  | nil => rfl
  | cons poll polls ih =>
      obtain ⟨room, turn⟩ := poll
      cases polled : (f.pollRead (.empty room) turn).1.poll with
      | pending => simp only [readToEnd, readInto, polled, ih]
      | panicked => simp only [readToEnd, readInto, polled, returning]
      | ready result =>
          cases result with
          | error e => simp only [readToEnd, readInto, polled, returning]
          | ok done =>
              simp only [readToEnd, readInto, polled, ih]
              split <;> rfl

/-- What `read_to_end` does with a file of this content: it never panics, it goes on only while no
READ fails, and for no more READs than there are bytes. -/
structure DownloadsAll (content : Bytes) (polls : List (Nat × Turn)) (f : File) (vec : Bytes) :
    Prop where
  calm : (readInto polls f vec).1 ≠ .panicked
  alive : (readInto polls f vec).1 = .pending → ∀ poll ∈ polls, poll.2.failure = none
  ends : content.length - f.pos.toNat < polls.countP (fun poll => poll.2.answer.isSome) →
    ∃ result, (readInto polls f vec).1 = .ready result
  done : ∀ result vec' f' sent, readInto polls f vec = (.ready result, vec', f', sent) →
    ∃ used rest chunks, polls = used ++ rest ∧
      Downloaded content f vec used result vec' sent chunks

/-- What `SftpSession::read` does after its file is opened. -/
structure ReadsAll (content : Bytes) (polls : List (Nat × Turn)) (file : File)
    (asked : List Request) (last : Awaited Bytes) (sent : List Request) : Prop where
  calm : last ≠ .panicked
  ends : content.length < polls.countP (fun poll => poll.2.answer.isSome) →
    ∃ result, last = .done result
  done : ∀ result, last = .done result → ∃ later used rest outcome vec chunks,
    sent = asked ++ later ∧ polls = used ++ rest ∧
      Downloaded content file [] used outcome vec later chunks ∧
      (outcome = .ok () ∧ result = .ok content ∨
        ∃ e, outcome = .error e ∧ result = .error (.io e))

section
variable {content : Bytes} {fsync : Bool} {limits : Option LimitsExtension}

theorem downloads_of_served (most : ∀ l, limits = some l → l.maxReadLen.toNat ≤ 2 ^ 31)
    (small : content.length < 2 ^ 64) {polls : List (Nat × Turn)} (offered : Offered polls)
    {f : File} (vec : Bytes) (negotiated : f.extensions = .negotiated fsync limits)
    (idle : f.state.fRead = none) (served : ServedFrom content polls f) :
    DownloadsAll content polls f vec := by
  have running : Running content fsync limits polls f :=
    ⟨negotiated, offered, fun _ _ => .inl idle, served⟩
  obtain ⟨calm, alive, ends⟩ := readInto_ready most small vec running
  refine ⟨calm, alive, ends, ?_⟩
  intro result vec' f' sent done
  have downloaded := downloaded_of_ready most small running done
  rw [File.readAsked, idle] at downloaded
  exact downloaded

/-- What the download of a new file returns through `read`. -/
theorem DownloadsAll.awaited {handle : String} {polls : List (Nat × Turn)}
    (downloads : DownloadsAll content polls (File.new handle (.negotiated fsync limits)) [])
    (asked : List Request) :
    ReadsAll content polls (File.new handle (.negotiated fsync limits)) asked
      (readToEnd polls (File.new handle (.negotiated fsync limits)) []).1.awaited
      (asked ++ (readToEnd polls (File.new handle (.negotiated fsync limits)) []).2.2) := by
  obtain ⟨calm, alive, ends, done⟩ := downloads
  rw [readToEnd_eq]
  rcases run : readInto polls (File.new handle (.negotiated fsync limits)) [] with
    ⟨last, vec, f', later⟩
  rw [run] at calm ends
  cases last with
  | panicked => exact absurd rfl calm
  | pending =>
      refine ⟨(fun panics => by cases panics), fun enough => ?_, (fun result none => by cases none)⟩
      obtain ⟨result, ready⟩ := ends enough
      cases ready
  | ready outcome =>
      obtain ⟨used, rest, chunks, shape, downloaded⟩ := done outcome vec f' later run
      cases outcome with
      | error e =>
          refine ⟨(fun panics => by cases panics), fun _ => ⟨_, rfl⟩, ?_⟩
          rintro result ⟨⟩
          exact ⟨later, used, rest, .error e, vec, chunks, rfl, shape, downloaded,
            .inr ⟨e, rfl, rfl⟩⟩
      | ok ended =>
          refine ⟨(fun panics => by cases panics), fun _ => ⟨_, rfl⟩, ?_⟩
          have all : vec = content := by
            rw [downloaded.appended, downloaded.whole rfl]
            rfl
          rintro result ⟨⟩
          exact ⟨later, used, rest, .ok (), vec, chunks, rfl, shape, downloaded,
            .inl ⟨rfl, by rw [all]⟩⟩

end

/-- However the server cuts the content up, and whether a READ fails: `read_to_end` and
`SftpSession::read` come to their end, and have the content from the cursor on, or a front of it
and the error of the READ. -/
theorem download_exact (content : Bytes) (small : content.length < 2 ^ 64) (fsync : Bool)
    (limits : Option LimitsExtension) (most : ∀ l, limits = some l → l.maxReadLen.toNat ≤ 2 ^ 31)
    (polls : List (Nat × Turn)) (offered : Offered polls) :
    (∀ (f : File) (vec : Bytes), f.extensions = .negotiated fsync limits →
      f.state.fRead = none → ServedFrom content polls f → DownloadsAll content polls f vec) ∧
    ∀ (handles : UInt64) (path : String) (opening : Turn) (file : File) (asked : List Request),
      SftpSession.open (.negotiated fsync limits) handles path opening =
        (.done (.ok file), asked) →
      ServedFrom content polls file →
      ReadsAll content polls file asked
        (SftpSession.read (.negotiated fsync limits) handles path opening polls).1
        (SftpSession.read (.negotiated fsync limits) handles path opening polls).2 := by
  constructor
  · intro f vec negotiated idle served
    exact downloads_of_served most small offered vec negotiated idle served
  · intro handles path opening file asked opened served
    obtain ⟨handle, rfl, -⟩ := openWithFlags_ok opened
    have downloads := downloads_of_served most small offered [] rfl rfl served
    rw [SftpSession.read, opened]
    exact downloads.awaited asked

/-- Three bytes in two pieces. -/
def pieces : List (Nat × Turn) :=
  [(4, .pending), (4, .ready (.ok (.data ⟨0, [7, 8]⟩))), (2, .ready (.ok (.data ⟨1, [9]⟩))),
    (1, .ready (.ok (.status ⟨2, .eof, "End of file", "en-US"⟩)))]

theorem download_exact_pieces :
    DownloadsAll [7, 8, 9] pieces (File.new "h" (.negotiated false none)) [5] ∧
      ReadsAll [7, 8, 9] pieces (File.new "h" (.negotiated false none))
        [.open "f" .read FileAttributes.empty] (.done (.ok [7, 8, 9]))
        [.open "f" .read FileAttributes.empty, .read "h" 0 4, .read "h" 2 2, .read "h" 3 1] := by
  have offered : Offered pieces := by
    constructor
    · decide
    · simp [pieces]
  have served : ServedFrom [7, 8, 9] pieces (File.new "h" (.negotiated false none)) := by
    refine ⟨?_, ?_, ?_, ?_, trivial⟩
    · rintro answer ⟨⟩
    all_goals
      rintro answer ⟨⟩
      exact .inl (by decide)
  have all := download_exact [7, 8, 9] (by decide) false none (fun l none => by cases none) pieces
    offered
  exact ⟨all.1 _ [5] rfl rfl served,
    all.2 0 "f" (.ready (.ok (.handle ⟨0, "h"⟩))) _ _ rfl served⟩

end RusshSftp.Client
