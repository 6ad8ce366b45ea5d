import RusshSftp.Client.FilePolls

/-!
# `write_all` on a file

The loop writes the rest of its data until nothing is left.  Each turn of the loop sends one
chunk at the cursor and waits for its status; so the chunks lie one after the other from
where the cursor was, and the first of them that fails ends the loop.
-/

set_option autoImplicit false

namespace RusshSftp.Client

/-- tokio's `write_all`: `poll_write` on the unwritten rest, one poll for each turn. -/
def writeAll : List Turn → File → Bytes → Poll Unit × File × List Request
  | [], f, buf => (if buf.isEmpty then .ready (.ok ()) else .pending, f, [])
  | turn :: turns, f, buf =>
      if buf.isEmpty then (.ready (.ok ()), f, [])
      else
        let polled := f.pollWrite buf turn
        match polled.poll with
        | .pending =>
            let (last, f, later) := writeAll turns polled.file buf
            (last, f, polled.sent ++ later)
        | .panicked => (.panicked, polled.file, polled.sent)
        | .ready (.error e) => (.ready (.error e), polled.file, polled.sent)
        | .ready (.ok n) =>
            -- `split_at` panics beyond the end of the data
            if n > buf.length then (.panicked, polled.file, polled.sent)
            else if n = 0 then (.ready (.error "write zero"), polled.file, polled.sent)
            else
              let (last, f, later) := writeAll turns polled.file (buf.drop n)
              (last, f, polled.sent ++ later)

/-- Chunks one after the other from an offset. -/
def writesFrom (handle : String) (pos : Nat) : List Bytes → List Request
  | [] => []
  | chunk :: chunks =>
      .write handle (UInt64.ofNat pos) chunk :: writesFrom handle (pos + chunk.length) chunks

/-- An upload that has come to its end after the turns `used`: the chunks that were acknowledged,
and the one that failed, if it was sent. -/
structure Uploaded (f : File) (data : Bytes) (used : List Turn) (result : Except String Unit)
    (f' : File) (sent : List Request) (acked failed : List Bytes) : Prop where
  tiles : sent = writesFrom f.handle f.pos.toNat (acked ++ failed)
  front : (acked ++ failed).flatten <+: data
  within : ∀ chunk ∈ acked ++ failed, 0 < chunk.length ∧ chunk.length ≤ f.maxWriteLen
  accepted : ∀ request ∈ sent, request.operation.limited f.limits 0 = none
  acknowledged : acked.length = used.countP Turn.acknowledges
  pos : f'.pos.toNat = f.pos.toNat + acked.flatten.length
  whole : result = .ok () → failed = [] ∧ acked.flatten = data
  /-- The error is that of the last turn. -/
  ended : ∀ e, result = .error e → failed.length ≤ 1 ∧ ∃ before last answer,
    used = before ++ [last] ∧ last.answer = some answer ∧
      ioResult (answer.bind intoStatus) = .error e

namespace File

variable {f : File}

/-- No write is pending, or the one of this data is. -/
def Uploads (f : File) (buf : Bytes) : Prop :=
  f.state.fWrite = none ∨ buf ≠ [] ∧ f.state.fWrite = some (f.writeCall buf)

/-- What the pending write has sent. -/
def asked (f : File) (buf : Bytes) : List Request :=
  if f.state.fWrite.isNone then [] else [f.writeRequest buf]

theorem Uploads.call {buf : Bytes} (uploads : f.Uploads buf) :
    f.state.fWrite.getD (f.writeCall buf) = f.writeCall buf := by
  rcases uploads with idle | ⟨_, busy⟩
  · rw [idle, Option.getD_none]
  · rw [busy, Option.getD_some]

/-- With the first poll or with this one, the chunk is sent once. -/
theorem asked_append (buf : Bytes) {turn : Turn} (goes : turn.refuses = false) :
    f.asked buf ++ (f.pollWrite buf turn).sent = [f.writeRequest buf] := by
  rw [asked, pollWrite_sent, goes]
  cases f.state.fWrite <;> rfl

theorem writeRequest_eq (f : File) (buf : Bytes) :
    f.writeRequest buf =
      .write f.handle (UInt64.ofNat f.pos.toNat) (f.writeCall buf).data := by
  rw [UInt64.ofNat_toNat]
  rfl

end File

/-! ## One turn of the loop -/

namespace Uploaded

section
variable {f f' : File} {data : Bytes} {used : List Turn} {result : Except String Unit}
  {sent : List Request} {acked failed : List Bytes}

theorem nothing (f : File) : Uploaded f [] [] (.ok ()) f [] [] [] where
  tiles := rfl
  front := List.prefix_rfl
  within := by simp
  accepted := by simp
  acknowledged := rfl
  pos := rfl
  whole _ := ⟨rfl, rfl⟩
  ended e failed := by cases failed

/-- A poll that waits leaves what the file uploads as it is. -/
theorem wait {slot : Option WriteCall}
    (later : Uploaded { f with state.fWrite := slot } data used result f' sent acked failed) :
    Uploaded f data (.pending :: used) result f' sent acked failed where
  tiles := later.tiles
  front := later.front
  within := later.within
  accepted := later.accepted
  acknowledged := by
    rw [later.acknowledged]
    rfl
  pos := later.pos
  whole := later.whole
  ended e isError := by
    obtain ⟨one, before, last, answer, rfl, rest⟩ := later.ended e isError
    exact ⟨one, .pending :: before, last, answer, rfl, rest⟩

/-- The chunk that fails is the last one, if it was sent at all. -/
theorem fail {buf : Bytes} {turn : Turn} {answer : SftpResult Packet} {e : String}
    (within : 0 < (f.writeCall buf).data.length ∧ (f.writeCall buf).data.length ≤ f.maxWriteLen)
    (answered : turn.answer = some answer)
    (isError : ioResult (answer.bind intoStatus) = .error e) (unacked : turn.acknowledges = false)
    (asks : sent = [] ∨ sent = [f.writeRequest buf]) (same : f'.pos = f.pos) :
    ∃ failed, Uploaded f buf [turn] (.error e) f' sent [] failed := by
  have ends (failed : List Bytes) (one : failed.length ≤ 1) : ∀ e',
      (Except.error e : Except String Unit) = .error e' → failed.length ≤ 1 ∧
        ∃ before last answer, [turn] = before ++ [last] ∧ last.answer = some answer ∧
          ioResult (answer.bind intoStatus) = .error e' := by
    rintro _ ⟨⟩
    exact ⟨one, [], turn, answer, rfl, answered, isError⟩
  have none : [turn].countP Turn.acknowledges = 0 := by
    rw [List.countP_singleton, unacked]
    rfl
  have stays : f'.pos.toNat = f.pos.toNat + ([] : List Bytes).flatten.length := by
    rw [same]
    rfl
  rcases asks with rfl | rfl
  · exact ⟨[], rfl, List.nil_prefix, by simp, by simp, none.symm, stays,
      fun ok => (by cases ok), ends [] (by simp)⟩
  · have front : (f.writeCall buf).data <+: buf := by
      rw [f.writeCall_data]
      exact List.take_prefix _ _
    have accepted : ∀ request ∈ [f.writeRequest buf],
        request.operation.limited f.limits 0 = .none := by
      intro request member
      rw [List.mem_singleton.mp member]
      exact f.writeCall_unlimited buf
    exact ⟨[(f.writeCall buf).data], by rw [f.writeRequest_eq]; rfl, by simpa using front,
      by simpa using within, accepted, none.symm, stays, fun ok => (by cases ok),
      ends [(f.writeCall buf).data] (by simp)⟩

/-- A chunk that is acknowledged comes before what is uploaded from its end. -/
theorem next {g : File} {buf : Bytes} {turn : Turn} {later : List Request}
    (within : 0 < (f.writeCall buf).data.length ∧ (f.writeCall buf).data.length ≤ f.maxWriteLen)
    (acks : turn.acknowledges = true)
    (handle : g.handle = f.handle) (extensions : g.extensions = f.extensions)
    (moved : g.pos.toNat = f.pos.toNat + (f.writeCall buf).data.length)
    (uploaded : Uploaded g (buf.drop (min buf.length f.maxWriteLen)) used result f' later
      acked failed) :
    Uploaded f buf (turn :: used) result f' (f.writeRequest buf :: later)
      ((f.writeCall buf).data :: acked) failed := by
  have limits : g.limits = f.limits := by rw [File.limits, extensions, File.limits]
  have most : g.maxWriteLen = f.maxWriteLen := by
    rw [File.maxWriteLen, extensions, File.maxWriteLen]
  have whole : (f.writeCall buf).data ++ buf.drop (min buf.length f.maxWriteLen) = buf := by
    rw [f.writeCall_data]
    exact List.take_append_drop _ _
  obtain ⟨tiles, front, chunks, checked, acknowledged, pos, all, ended⟩ := uploaded
  rw [handle, moved] at tiles
  rw [most] at chunks
  rw [limits] at checked
  constructor
  · rw [tiles, f.writeRequest_eq]
    rfl
  · have both := (List.prefix_append_right_inj (f.writeCall buf).data).mpr front
    rw [whole] at both
    rw [List.cons_append, List.flatten_cons]
    exact both
  · intro c member
    rcases List.mem_cons.mp member with rfl | member
    · exact within
    · exact chunks c member
  · intro request member
    rcases List.mem_cons.mp member with rfl | member
    · exact f.writeCall_unlimited buf
    · exact checked request member
  · rw [List.length_cons, acknowledged, List.countP_cons_of_pos acks]
  · rw [pos, moved, List.flatten_cons, List.length_append]
    omega
  · intro ok
    obtain ⟨none, flat⟩ := all ok
    exact ⟨none, by rw [List.flatten_cons, flat, whole]⟩
  · intro e isError
    obtain ⟨one, before, last, answer, rfl, rest⟩ := ended e isError
    exact ⟨one, turn :: before, last, answer, rfl, rest⟩

end

end Uploaded

/-! ## The loop -/

theorem writeAll_nil (turns : List Turn) (f : File) :
    writeAll turns f [] = (.ready (.ok ()), f, []) := by
  cases turns <;> rfl

/-- Some requests, and then what is left of the loop. -/
def sentBefore {β : Type} (sent : List Request) (left : Poll β × File × List Request) :
    Poll β × File × List Request :=
  (left.1, left.2.1, sent ++ left.2.2)

theorem sentBefore_inv {β : Type} {left : Poll β × File × List Request}
    {first sent : List Request} {last : Poll β} {f : File}
    (done : sentBefore first left = (last, f, sent)) :
    ∃ later, left = (last, f, later) ∧ sent = first ++ later := by
  cases done
  exact ⟨left.2.2, rfl, rfl⟩

/-- What one turn does: it waits, the chunk fails and ends the loop, or the chunk is acknowledged
and the loop goes on behind it. -/
theorem writeAll_cons {f : File} {buf : Bytes} (uploads : f.Uploads buf) (some : buf ≠ [])
    (positive : 0 < f.maxWriteLen) (turn : Turn) (turns : List Turn) :
    (turn = .pending ∧
      writeAll (turn :: turns) f buf = sentBefore (f.pollWrite buf turn).sent
        (writeAll turns { f with state.fWrite := .some (f.writeCall buf) } buf)) ∨
    (turn.acknowledges = false ∧ ∃ answer e, turn.answer = .some answer ∧
      ioResult (answer.bind intoStatus) = .error e ∧
      writeAll (turn :: turns) f buf =
        (.ready (.error e), { f with state.fWrite := none }, (f.pollWrite buf turn).sent)) ∨
    (turn.acknowledges = true ∧
      writeAll (turn :: turns) f buf = sentBefore (f.pollWrite buf turn).sent
        (writeAll turns { f with
          state.fWrite := none, pos := f.pos + UInt64.ofNat (min buf.length f.maxWriteLen) }
          (buf.drop (min buf.length f.maxWriteLen)))) := by
  have length : 0 < buf.length := List.length_pos_of_ne_nil some
  have call := uploads.call
  have size : (f.writeCall buf).data.length = min buf.length f.maxWriteLen := by
    rw [f.writeCall_data, List.length_take]
    omega
  rw [writeAll, if_neg (by simpa using some)]
  rcases f.pollWrite_cases buf turn with
    ⟨rfl, waits, after⟩ | ⟨unacked, ⟨answer, e, answered, isError, ends⟩, after⟩ |
      ⟨acks, ends, after⟩
  · simp only [waits, after, call]
    exact .inl ⟨trivial, rfl⟩
  · simp only [ends, after]
    exact .inr (.inl ⟨unacked, answer, e, answered, isError, rfl⟩)
  · simp only [ends, after, call, size]
    rw [if_neg (by omega), if_neg (by omega)]
    exact .inr (.inr ⟨acks, rfl⟩)

theorem uploaded_nothing {turns : List Turn} {f f' : File} {result : Except String Unit}
    {sent : List Request} (idle : f.state.fWrite = none)
    (done : writeAll turns f [] = (.ready result, f', sent)) :
    ∃ used rest acked failed, turns = used ++ rest ∧
      Uploaded f [] used result f' (f.asked [] ++ sent) acked failed := by
  rw [writeAll_nil] at done
  cases done
  rw [File.asked, idle]
  exact ⟨[], turns, [], [], rfl, .nothing f⟩

/-- An upload that has come to its end has uploaded what it was given. -/
theorem uploaded_of_ready {fsync : Bool} {limits : Option LimitsExtension} {turns : List Turn}
    {f f' : File} {buf : Bytes} {result : Except String Unit} {sent : List Request}
    (negotiated : f.extensions = .negotiated fsync limits) (uploads : f.Uploads buf)
    (small : f.pos.toNat + buf.length < 2 ^ 64)
    (done : writeAll turns f buf = (.ready result, f', sent)) :
    ∃ used rest acked failed, turns = used ++ rest ∧
      Uploaded f buf used result f' (f.asked buf ++ sent) acked failed := by
  induction turns generalizing f buf sent with
  | nil =>
      by_cases empty : buf = []
      · subst empty
        exact uploaded_nothing (uploads.resolve_right fun busy => busy.1 rfl) done
      · simp [writeAll, empty] at done
  | cons turn turns ih =>
      by_cases empty : buf = []
      · subst empty
        exact uploaded_nothing (uploads.resolve_right fun busy => busy.1 rfl) done
      · have length : 0 < buf.length := List.length_pos_of_ne_nil empty
        have positive := f.maxWriteLen_pos negotiated
        have size : (f.writeCall buf).data.length = min buf.length f.maxWriteLen := by
          rw [f.writeCall_data, List.length_take]
          omega
        have within : 0 < (f.writeCall buf).data.length ∧
            (f.writeCall buf).data.length ≤ f.maxWriteLen := by omega
        rcases writeAll_cons uploads empty positive turn turns with
          ⟨rfl, waits⟩ | ⟨unacked, answer, e, answered, isError, ends⟩ | ⟨acks, goes⟩
        · rw [waits] at done
          obtain ⟨later, left, rfl⟩ := sentBefore_inv done
          obtain ⟨used, unused, acked, failed, shape, uploaded⟩ :=
            ih (f := { f with state.fWrite := some (f.writeCall buf) }) negotiated
              (.inr ⟨empty, rfl⟩) small left
          refine ⟨.pending :: used, unused, acked, failed, by rw [shape]; rfl, ?_⟩
          rw [← List.append_assoc, f.asked_append buf rfl]
          exact uploaded.wait
        · rw [ends] at done
          cases done
          have asks : f.asked buf ++ (f.pollWrite buf turn).sent = [] ∨
              f.asked buf ++ (f.pollWrite buf turn).sent = [f.writeRequest buf] := by
            rw [File.asked, File.pollWrite_sent]
            cases f.state.fWrite <;> cases turn.refuses <;> simp
          obtain ⟨failed, uploaded⟩ : ∃ failed, Uploaded f buf [turn] (.error e)
              { f with state.fWrite := none } (f.asked buf ++ (f.pollWrite buf turn).sent) []
              failed := Uploaded.fail within answered isError unacked asks rfl
          exact ⟨[turn], turns, [], failed, rfl, uploaded⟩
        · rw [goes] at done
          obtain ⟨later, left, rfl⟩ := sentBefore_inv done
          have moved : (f.pos + UInt64.ofNat (min buf.length f.maxWriteLen)).toNat =
              f.pos.toNat + min buf.length f.maxWriteLen := add_length (by omega)
          have below : (f.pos + UInt64.ofNat (min buf.length f.maxWriteLen)).toNat +
              (buf.drop (min buf.length f.maxWriteLen)).length < 2 ^ 64 := by
            rw [moved, List.length_drop]
            omega
          obtain ⟨used, unused, acked, failed, shape, uploaded⟩ :=
            ih (f := { f with
              state.fWrite := none, pos := f.pos + UInt64.ofNat (min buf.length f.maxWriteLen) })
              negotiated (.inl rfl) below left
          refine ⟨turn :: used, unused, (f.writeCall buf).data :: acked, failed,
            by rw [shape]; rfl, ?_⟩
          rw [← List.append_assoc, f.asked_append buf (Turn.goes_of_acknowledges acks)]
          exact Uploaded.next (g := { f with
              state.fWrite := none, pos := f.pos + UInt64.ofNat (min buf.length f.maxWriteLen) })
            within acks rfl rfl (by rw [size]; exact moved) uploaded

/-- Enough answers bring the loop to its end. -/
theorem writeAll_ready {fsync : Bool} {limits : Option LimitsExtension} {turns : List Turn}
    {f : File} {buf : Bytes} (negotiated : f.extensions = .negotiated fsync limits)
    (uploads : f.Uploads buf)
    (enough : buf.length ≤ turns.countP fun turn => turn.answer.isSome) :
    ∃ result, (writeAll turns f buf).1 = .ready result := by
  induction turns generalizing f buf with
  | nil =>
      have empty : buf = [] := List.length_eq_zero_iff.mp (Nat.le_zero.mp enough)
      exact ⟨.ok (), by rw [empty, writeAll_nil]⟩
  | cons turn turns ih =>
      by_cases empty : buf = []
      · exact ⟨.ok (), by rw [empty, writeAll_nil]⟩
      · have length : 0 < buf.length := List.length_pos_of_ne_nil empty
        have positive := f.maxWriteLen_pos negotiated
        rcases writeAll_cons uploads empty positive turn turns with
          ⟨rfl, waits⟩ | ⟨_, _, e, _, _, ends⟩ | ⟨_, goes⟩
        · rw [waits]
          exact ih negotiated (.inr ⟨empty, rfl⟩) enough
        · exact ⟨.error e, by rw [ends]⟩
        · rw [goes]
          refine ih negotiated (.inl rfl) ?_
          rw [List.countP_cons] at enough
          rw [List.length_drop]
          split at enough <;> omega

/-- `write_all` on a file with no write pending comes to its end with enough answers.  It has then
sent its data in chunks, up to the first one that failed. -/
theorem upload_tiles (f : File) (fsync : Bool) (limits : Option LimitsExtension)
    (negotiated : f.extensions = .negotiated fsync limits) (idle : f.state.fWrite = none)
    (data : Bytes) (small : f.pos.toNat + data.length < 2 ^ 64) (turns : List Turn) :
    (data.length ≤ turns.countP (fun turn => turn.answer.isSome) →
      ∃ result, (writeAll turns f data).1 = .ready result) ∧
    ∀ result, (writeAll turns f data).1 = .ready result →
      ∃ used rest acked failed, turns = used ++ rest ∧
        Uploaded f data used result (writeAll turns f data).2.1 (writeAll turns f data).2.2
          acked failed := by
  constructor
  · exact writeAll_ready negotiated (.inl idle)
  · intro result ready
    obtain ⟨used, rest, acked, failed, shape, uploaded⟩ :=
      uploaded_of_ready negotiated (.inl idle) small (Prod.ext ready rfl)
    rw [File.asked, idle] at uploaded
    exact ⟨used, rest, acked, failed, shape, uploaded⟩

/-- Five bytes at 7 with a limit of two, where the second chunk fails. -/
theorem upload_tiles_failed :
    ∃ used rest acked failed, [Turn.pending, Lifetime.written, .ready (.error .timeout)] =
        used ++ rest ∧
      Uploaded { File.new "h" (.negotiated true (some ⟨0, 0, 2, 0⟩)) with pos := 7 }
        [1, 2, 3, 4, 5] used (.error "Timeout")
        { File.new "h" (.negotiated true (some ⟨0, 0, 2, 0⟩)) with pos := 9 }
        [.write "h" 7 [1, 2], .write "h" 9 [3, 4]] acked failed :=
  (upload_tiles { File.new "h" (.negotiated true (some ⟨0, 0, 2, 0⟩)) with pos := 7 } true
    (some ⟨0, 0, 2, 0⟩) rfl rfl [1, 2, 3, 4, 5] (by decide)
    [.pending, Lifetime.written, .ready (.error .timeout)]).2 _ rfl

end RusshSftp.Client
