import RusshSftp.Server.Run
import RusshSftp.Client.ReadTask
import RusshSftp.Lib.Rounds

/-!
# Loops on a dead stream

A dead stream gives its bytes and from then on answers every read with an error.  A
round of a loop takes one frame, or finds one of these errors; the loops stop on an end of file
only, so which errors there are decides whether they stop.
-/

set_option autoImplicit false

namespace RusshSftp

open Framing

/-- What `From<io::Error>` takes for the end of a stream. -/
def IoError.IsEof (err : IoError) : Prop :=
  err.kind = .unexpectedEof ∨ (err.kind = .other ∧ err.inner = some "EOF")

/-! ## What one call leaves of a stream -/

namespace Stream

/-- The fault of the next write, if it has one. -/
def fault (s : Stream) : Option WriteFault := s.faults.head?.join

theorem writeAll_fault (s : Stream) (packet : Bytes) :
    ∃ output, s.writeAll packet =
      (match s.fault with
        | none => .ok ()
        | some fault => .error fault.error,
        { s with output, faults := s.faults.tail }) := by
  obtain ⟨input, ending, output, faults⟩ := s
  cases faults with
  | nil => exact ⟨_, rfl⟩
  | cons next faults =>
      cases next with
      | none => exact ⟨_, rfl⟩
      | some fault => exact ⟨_, rfl⟩

theorem readExact_ending (n : Nat) (s : Stream) : (s.readExact n).2.ending = s.ending := by
  rw [readExact]
  split <;> rfl

theorem readPacket_ending (s : Stream) : s.readPacket.2.ending = s.ending := by
  have word := s.readExact_ending 4
  rcases first : s.readExact 4 with ⟨_ | bytes, next⟩
  · rw [first] at word
    simp only [readPacket, readU32, first]
    exact word
  · rw [first] at word
    have body := next.readExact_ending (UInt32.ofNat (BigEndian.beNat bytes)).toNat
    rcases second : next.readExact (UInt32.ofNat (BigEndian.beNat bytes)).toNat with ⟨_ | _, last⟩
    · rw [second] at body
      simp only [readPacket, readU32, first, second]
      exact body.trans word
    · rw [second] at body
      simp only [readPacket, readU32, first, second]
      exact body.trans word

end Stream

/-! ## The rounds -/

section
variable {σ : Type}

/-- The loops' `match`: whether the loop ends, with the number of the next round. -/
def told (i : Nat) : Except Error Unit × Stream × σ → Bool × Nat × Stream × σ
  | (.error .unexpectedEof, stream, s) => (true, i + 1, stream, s)
  | (_, stream, s) => (false, i + 1, stream, s)

/-- A round of a loop.  A read of round `i` that finds no bytes left finds the error `endings i`. -/
def roundOf (process : Stream → σ → Except Error Unit × Stream × σ) (endings : Nat → IoError) :
    Nat × Stream × σ → Bool × Nat × Stream × σ
  | (i, stream, s) => told i (process { stream with ending := endings i } s)

theorem told_ends (i : Nat) (done : Except Error Unit × Stream × σ) :
    ((told i done).1 = true ↔ done.1 = .error .unexpectedEof) ∧
      (told i done).2 = (i + 1, done.2) := by
  rcases done with ⟨err | _, stream, s⟩
  · cases err <;> simp [told]
  · simp [told]

end

section
variable {σ : Type} {process : Stream → σ → Except Error Unit × Stream × σ}

/-- A loop over a stream with one error only. -/
theorem run_eq_rounds (run : Nat → Stream → σ → Bool × Stream × σ)
    (keeps : ∀ stream s, (process stream s).2.1.ending = stream.ending)
    (zero : ∀ stream s, run 0 stream s = (false, stream, s))
    (succ : ∀ fuel stream s, run (fuel + 1) stream s =
      match process stream s with
      | (.error .unexpectedEof, stream, s) => (true, stream, s)
      | (_, stream, s) => run fuel stream s)
    (fuel i : Nat) {stream : Stream} {e : IoError} (ending : stream.ending = e) (s : σ) :
    run fuel stream s =
      ((Rounds.run (roundOf process fun _ => e) fuel (i, stream, s)).1,
        (Rounds.run (roundOf process fun _ => e) fuel (i, stream, s)).2.2) := by
  induction fuel generalizing i stream s with
  | zero => rw [zero, Rounds.run]
  | succ fuel ih =>
      subst ending
      have same := keeps stream s
      rcases done : process stream s with ⟨result, next, s'⟩
      rw [done] at same
      rw [succ, done]
      have round : roundOf process (fun _ => stream.ending) (i, stream, s) =
          told i (result, next, s') := by
        rw [← done]
        rfl
      have on : told i (result, next, s') = (false, i + 1, next, s') →
          run fuel next s' =
            ((Rounds.run (roundOf process fun _ => stream.ending) (fuel + 1) (i, stream, s)).1,
              (Rounds.run (roundOf process fun _ => stream.ending) (fuel + 1)
                (i, stream, s)).2.2) := by
        intro goes
        rw [Rounds.run_on (by rw [round, goes]), round, goes]
        exact ih (i + 1) same s'
      cases result with
      | ok done => exact on rfl
      | error err =>
          cases err with
          | unexpectedEof => rw [Rounds.run_last (by rw [round]; rfl), round, told]
          | _ => exact on rfl

end

/-- A round of `server::run`. -/
def Server.round {σ ε : Type} (handler : Server.Handler σ ε) (endings : Nat → IoError) :
    Nat × Stream × σ → Bool × Nat × Stream × σ :=
  roundOf (fun stream s => Server.processHandler stream handler s) endings

/-- A round of the read task of `client::run`. -/
def Client.round {σ ε : Type} (handler : Client.Handler σ ε) (endings : Nat → IoError) :
    Nat × Stream × σ → Bool × Nat × Stream × σ :=
  roundOf (fun stream s => Client.Handler.processHandler stream handler s) endings

/-! ## The frames that are left -/

/-- Before round `i` the stream holds the frames from the `i`-th on. -/
def Stream.Left (frames : List Bytes) (i : Nat) (stream : Stream) : Prop :=
  ∃ rest, Splits 4 stream.input (frames.drop i) rest

namespace Stream.Left

variable {frames : List Bytes} {i : Nat} {stream : Stream}

theorem frame (left : Left frames i stream) (more : i < frames.length) :
    ∃ bytes rest, bytes.length < 2 ^ 32 ∧ stream.input = Framing.frame 4 bytes ++ rest ∧
      ∀ after : Stream, after.input = rest → Left frames (i + 1) after := by
  obtain ⟨rest, split⟩ := left
  rw [List.drop_eq_getElem_cons more] at split
  have shape := split.whole
  rw [List.flatMap_cons, List.append_assoc] at shape
  refine ⟨frames[i], _, split.fits _ List.mem_cons_self, shape, ?_⟩
  intro after input
  exact ⟨rest, input, fun body member => split.fits body (List.mem_cons_of_mem _ member),
    split.incomplete⟩

theorem incomplete (left : Left frames i stream) (none : frames.length ≤ i) :
    Incomplete 4 stream.input ∧
      ∀ after : Stream, after.input = [] → Left frames (i + 1) after := by
  obtain ⟨rest, split⟩ := left
  rw [List.drop_eq_nil_of_le none] at split
  have shape : stream.input = rest := split.whole
  refine ⟨shape ▸ split.incomplete, fun after input => ⟨[], ?_⟩⟩
  rw [List.drop_eq_nil_of_le (by omega), input]
  exact ⟨rfl, (by simp), .inl (by decide)⟩

end Stream.Left

theorem Error.ofIo_isEof (err : IoError) :
    (Except.error (Error.ofIo err) : Except Error Unit) = .error .unexpectedEof ↔ err.IsEof := by
  rw [Except.error.injEq, Error.ofIo_eq_unexpectedEof_iff, IoError.IsEof]

/-! ## The loop of the server -/

namespace Server

variable {σ ε : Type} (handler : Server.Handler σ ε)

/-- A frame is answered by one write. -/
theorem processHandler_written (stream : Stream) {bytes rest : Bytes} (s : σ)
    (fits : bytes.length < 2 ^ 32) (shape : stream.input = frame 4 bytes ++ rest) :
    ((processHandler stream handler s).1 = .error .unexpectedEof ↔
        ∃ fault, stream.fault = some fault ∧ fault.error.IsEof) ∧
      (processHandler stream handler s).2.1.input = rest ∧
      (processHandler stream handler s).2.1.faults = stream.faults.tail := by
  have read := stream.readPacket_frame bytes rest fits shape
  obtain ⟨packet, encoded⟩ : ∃ packet, (respond handler bytes s).1.toBytes = .ok packet :=
    ⟨_, Packet.toBytes_eq _⟩
  obtain ⟨output, wrote⟩ := Stream.writeAll_fault { stream with input := rest } packet
  have same : Stream.fault { stream with input := rest } = stream.fault := rfl
  rw [same] at wrote
  cases fault : stream.fault with
  | none =>
      rw [fault] at wrote
      simp [processHandler, read, encoded, wrote]
  | some fault' =>
      rw [fault] at wrote
      simp only [processHandler, read, encoded, wrote, Error.ofIo_isEof, Option.some.injEq]
      simp

theorem processHandler_ending (stream : Stream) (s : σ) :
    (processHandler stream handler s).2.1.ending = stream.ending := by
  have ending := stream.readPacket_ending
  rcases read : stream.readPacket with ⟨_ | bytes, next⟩
  · rw [read] at ending
    simp only [processHandler, read]
    exact ending
  · rw [read] at ending
    obtain ⟨packet, encoded⟩ : ∃ packet, (respond handler bytes s).1.toBytes = .ok packet :=
      ⟨_, Packet.toBytes_eq _⟩
    obtain ⟨output, wrote⟩ := next.writeAll_fault packet
    cases fault : next.fault with
    | none =>
        rw [fault] at wrote
        simp only [processHandler, read, encoded, wrote]
        exact ending
    | some fault' =>
        rw [fault] at wrote
        simp only [processHandler, read, encoded, wrote]
        exact ending

/-- `run` is a loop of these rounds. -/
theorem run_rounds (fuel : Nat) (stream : Stream) (s : σ) :
    (run handler fuel stream s).1 =
      (Rounds.run (round handler fun _ => stream.ending) fuel (0, stream, s)).1 := by
  rw [run_eq_rounds (run handler) (processHandler_ending handler) (fun _ _ => rfl)
    (fun _ _ _ => rfl) fuel 0 rfl s]
  rfl

/-- What ends the loop in round `i`: the write of the answer to a frame, or the read that finds the
stream dead. -/
def Last (frames : List Bytes) (faults : List (Option WriteFault)) (endings : Nat → IoError)
    (i : Nat) : Prop :=
  (i < frames.length ∧ ∃ fault, faults[i]? = some (some fault) ∧ fault.error.IsEof) ∨
    (frames.length ≤ i ∧ (endings i).IsEof)

/-- The state of the loop before round `i`. -/
structure Before (frames : List Bytes) (faults : List (Option WriteFault)) (i : Nat)
    (state : Nat × Stream × σ) : Prop where
  number : state.1 = i
  left : state.2.1.Left frames i
  faults : i ≤ frames.length → state.2.1.faults = faults.drop i

theorem round_step {frames : List Bytes} {faults : List (Option WriteFault)}
    (endings : Nat → IoError) {i : Nat} {state : Nat × Stream × σ}
    (before : Before frames faults i state) :
    ((round handler endings state).1 = true ↔ Last frames faults endings i) ∧
      Before frames faults (i + 1) (round handler endings state).2 := by
  obtain ⟨_, stream, s⟩ := state
  obtain ⟨rfl, left, writes⟩ := before
  dsimp only at left writes
  rename_i i
  obtain ⟨ends, next⟩ :=
    told_ends i (processHandler { stream with ending := endings i } handler s)
  rw [show round handler endings (i, stream, s) = told i _ from rfl, ends, next]
  by_cases more : i < frames.length
  · obtain ⟨bytes, rest, fits, shape, later⟩ := left.frame more
    obtain ⟨met, input, faults'⟩ :=
      processHandler_written handler { stream with ending := endings i } s fits shape
    rw [met]
    refine ⟨?_, rfl, later _ input, fun _ => ?_⟩
    · have next : Stream.fault { stream with ending := endings i } = faults[i]?.join := by
        rw [Stream.fault, writes (by omega), List.head?_drop]
      simp [next, Last, more, Option.join_eq_some_iff]
    · rw [faults', writes (by omega), List.tail_drop]
  · have none : frames.length ≤ i := by omega
    obtain ⟨incomplete, later⟩ := left.incomplete none
    rw [processHandler_incomplete handler { stream with ending := endings i } s incomplete]
    refine ⟨?_, rfl, later _ rfl, fun some => by omega⟩
    rw [Error.ofIo_isEof]
    simp [Last, more, none]

/-- The loop stops just when the end of a file is among the errors it meets. -/
theorem ends_iff (s : σ) {input : Bytes} (faults : List (Option WriteFault))
    (endings : Nat → IoError) {frames : List Bytes} {rest : Bytes}
    (split : Splits 4 input frames rest) (ending : IoError) (output : Bytes) :
    Rounds.Ends (round handler endings) (0, ⟨input, ending, output, faults⟩, s) ↔
      ∃ i, Last frames faults endings i := by
  have start : Before frames faults 0 (0, ⟨input, ending, output, faults⟩, s) :=
    ⟨rfl, ⟨rest, split⟩, fun _ => List.drop_zero.symm⟩
  have all := Rounds.ends_iff (I := Before frames faults)
    (fun _ _ before => (round_step handler endings before).1)
    (fun _ _ before _ => (round_step handler endings before).2) start
  simpa using all

end Server

/-! ## The loop of the client -/

namespace Client

variable {σ ε : Type} (handler : Client.Handler σ ε)

theorem round_step {frames : List Bytes} (endings : Nat → IoError) {i : Nat}
    {state : Nat × Stream × σ} (number : state.1 = i) (left : state.2.1.Left frames i) :
    ((round handler endings state).1 = true ↔ frames.length ≤ i ∧ (endings i).IsEof) ∧
      (round handler endings state).2.1 = i + 1 ∧
      (round handler endings state).2.2.1.Left frames (i + 1) := by
  obtain ⟨_, stream, s⟩ := state
  cases number
  dsimp only at left ⊢
  rename_i i
  obtain ⟨ends, next⟩ :=
    told_ends i (Handler.processHandler { stream with ending := endings i } handler s)
  rw [show round handler endings (i, stream, s) = told i _ from rfl, ends, next]
  by_cases more : i < frames.length
  · obtain ⟨bytes, rest, fits, shape, later⟩ := left.frame more
    obtain ⟨alive, after⟩ := Handler.processHandler_frame handler
      { stream with ending := endings i } s bytes rest fits shape
    refine ⟨?_, rfl, later _ (by rw [after])⟩
    constructor
    · exact fun ended => absurd ended alive
    · intro ended
      omega
  · have none : frames.length ≤ i := by omega
    obtain ⟨incomplete, later⟩ := left.incomplete none
    rw [Handler.processHandler_incomplete handler { stream with ending := endings i } s incomplete,
      Error.ofIo_isEof]
    exact ⟨(and_iff_right none).symm, rfl, later _ rfl⟩

theorem processHandler_ending (stream : Stream) (s : σ) :
    (Handler.processHandler stream handler s).2.1.ending = stream.ending := by
  have ending := stream.readPacket_ending
  rcases read : stream.readPacket with ⟨_ | bytes, next⟩
  · rw [read] at ending
    simp only [Handler.processHandler, read]
    exact ending
  · rw [read] at ending
    rcases executed : Handler.executeHandler bytes handler s with ⟨_ | _, s'⟩
    · simp only [Handler.processHandler, read, executed]
      exact ending
    · simp only [Handler.processHandler, read, executed]
      exact ending

theorem run_rounds (fuel : Nat) (stream : Stream) (s : σ) :
    (Handler.run handler fuel stream s).1 =
      (Rounds.run (round handler fun _ => stream.ending) fuel (0, stream, s)).1 := by
  rw [run_eq_rounds (Handler.run handler) (processHandler_ending handler) (fun _ _ => rfl)
    (fun _ _ _ => rfl) fuel 0 rfl s]
  rfl

/-- Nothing but a read of the dead stream stops the read task. -/
theorem ends_iff (s : σ) {input : Bytes} (endings : Nat → IoError) {frames : List Bytes}
    {rest : Bytes} (split : Splits 4 input frames rest) (ending : IoError) (output : Bytes)
    (faults : List (Option WriteFault)) :
    Rounds.Ends (round handler endings) (0, ⟨input, ending, output, faults⟩, s) ↔
      ∃ i, frames.length ≤ i ∧ (endings i).IsEof := by
  have start : Stream.Left frames 0 ⟨input, ending, output, faults⟩ := ⟨rest, split⟩
  have all := Rounds.ends_iff (I := fun i state => state.1 = i ∧ state.2.1.Left frames i)
    (fun _ _ before => (round_step handler endings before.1 before.2).1)
    (fun _ _ before _ => (round_step handler endings before.1 before.2).2)
    (s := (0, ⟨input, ending, output, faults⟩, s)) ⟨rfl, start⟩
  simpa using all

end Client

/-! ## Which dead streams end the loops -/

/-- Over a stream that gives `input` and answers every read after it with an error, the server stops
just when the end of a file is among these errors or those of its writes before, and the client
just when it is among these errors.  So it is with errors that change and with one that does
not. -/
theorem loops_end_iff {σ ε τ δ : Type} (server : Server.Handler σ ε)
    (client : Client.Handler τ δ) (s : σ) (t : τ) (input : Bytes) :
    ∃ frames rest, Splits 4 input frames rest ∧
      (∀ frames' rest', Splits 4 input frames' rest' → frames' = frames ∧ rest' = rest) ∧
      (∀ (endings : Nat → IoError) (faults : List (Option WriteFault)),
        (Rounds.Ends (Server.round server endings) (0, ⟨input, endings 0, [], faults⟩, s) ↔
          (∃ i fault, i < frames.length ∧ faults[i]? = some (some fault) ∧ fault.error.IsEof) ∨
            ∃ i, frames.length ≤ i ∧ (endings i).IsEof) ∧
        (Rounds.Ends (Client.round client endings) (0, ⟨input, endings 0, [], faults⟩, t) ↔
          ∃ i, frames.length ≤ i ∧ (endings i).IsEof)) ∧
      ∀ (ending : IoError) (faults : List (Option WriteFault)),
        ((∃ fuel, (Server.run server fuel ⟨input, ending, [], faults⟩ s).1 = true) ↔
          (∃ i fault, i < frames.length ∧ faults[i]? = some (some fault) ∧ fault.error.IsEof) ∨
            ending.IsEof) ∧
        ((∃ fuel, (Client.Handler.run client fuel ⟨input, ending, [], faults⟩ t).1 = true) ↔
          ending.IsEof) := by
  obtain ⟨frames, rest, split⟩ := exists_splits (by decide : 0 < 4) input
  have later (endings : Nat → IoError) (faults : List (Option WriteFault)) (ending : IoError) :
      (Rounds.Ends (Server.round server endings) (0, ⟨input, ending, [], faults⟩, s) ↔
        (∃ i fault, i < frames.length ∧ faults[i]? = some (some fault) ∧ fault.error.IsEof) ∨
          ∃ i, frames.length ≤ i ∧ (endings i).IsEof) ∧
      (Rounds.Ends (Client.round client endings) (0, ⟨input, ending, [], faults⟩, t) ↔
        ∃ i, frames.length ≤ i ∧ (endings i).IsEof) := by
    constructor
    · rw [Server.ends_iff server s faults endings split]
      simp only [Server.Last, exists_or, exists_and_left]
    · exact Client.ends_iff client t endings split ending [] faults
  refine ⟨frames, rest, split, fun _ _ other => other.unique split,
    fun endings faults => later endings faults (endings 0), fun ending faults => ?_⟩
  have some : (∃ i, frames.length ≤ i ∧ ending.IsEof) ↔ ending.IsEof :=
    ⟨fun ⟨_, _, eof⟩ => eof, fun eof => ⟨frames.length, le_refl _, eof⟩⟩
  obtain ⟨servers, clients⟩ := later (fun _ => ending) faults ending
  rw [some] at servers clients
  simp only [Server.run_rounds, Client.run_rounds]
  exact ⟨servers, clients⟩

/-- A connection that is reset before the first byte: both loops go on for ever. -/
theorem loops_never_end :
    (∀ fuel, (Server.run { into := id, unimplemented := fun _ => StatusCode.opUnsupported } fuel
      ⟨[], ⟨.connectionReset, none⟩, [], []⟩ ()).1 = false) ∧
    ∀ fuel, (Client.Handler.run { into := (id : Client.Error → Client.Error) } fuel
      ⟨[], ⟨.connectionReset, none⟩, [], []⟩ ()).1 = false := by
  have nothing : Splits 4 [] [] [] := ⟨rfl, (by simp), .inl (by decide)⟩
  constructor
  · intro fuel
    rw [Server.run_rounds, ← Bool.not_eq_true]
    intro ended
    obtain ⟨i, last⟩ := (Server.ends_iff _ () [] _ nothing _ []).mp ⟨fuel, ended⟩
    simp [Server.Last, IoError.IsEof] at last
  · intro fuel
    rw [Client.run_rounds, ← Bool.not_eq_true]
    intro ended
    obtain ⟨i, last⟩ := (Client.ends_iff _ () _ nothing _ [] []).mp ⟨fuel, ended⟩
    simp [IoError.IsEof] at last

end RusshSftp
