import RusshSftp.Stream
import RusshSftp.Protocol.RoundTrip
import RusshSftp.Server.Handler

/-!
# The server loop

`run` reads a frame, answers it and goes on, until a read or a write ends in an
end of file.  What it does to a stream is compared with `replies`, which knows
nothing of bytes: it goes over the list of frames and answers each of them.
-/

set_option autoImplicit false

namespace RusshSftp.Server

open Framing

variable {σ ε : Type}

/-- The response to one frame. -/
def respond (handler : Handler σ ε) (bytes : Bytes) (s : σ) : Packet × σ :=
  match Packet.tryFrom.run bytes with
  | .ok (request, _) => processRequest handler request s
  | .error _ => (Packet.error 0 .badMessage, s)

def processHandler (stream : Stream) (handler : Handler σ ε) (s : σ) :
    Except Error Unit × Stream × σ :=
  match stream.readPacket with
  | (.error err, stream) => (.error err, stream, s)
  | (.ok bytes, stream) =>
      let (response, s) := respond handler bytes s
      match response.toBytes with
      | .error err => (.error err, stream, s)
      | .ok packet =>
          match stream.writeAll packet with
          | (.error err, stream) => (.error (Error.ofIo err), stream, s)
          | (.ok (), stream) => (.ok (), stream, s)

/-- At most `fuel` rounds of the loop; the flag tells whether it has stopped. -/
def run (handler : Handler σ ε) : Nat → Stream → σ → Bool × Stream × σ
  | 0, stream, s => (false, stream, s)
  | fuel + 1, stream, s =>
      match processHandler stream handler s with
      | (.error .unexpectedEof, stream, s) => (true, stream, s)
      | (_, stream, s) => run handler fuel stream s

/-! ## The frames and their responses -/

/-- The request that a frame holds, if it decodes to one. -/
def decodeRequest (bytes : Bytes) : Option Packet :=
  match Packet.tryFrom.run bytes with
  | .ok (packet, _) => if packet.isRequest then some packet else none
  | .error _ => none

/-- The handler's state once it has seen the requests among these frames. -/
def stateAfter (handler : Handler σ ε) (s : σ) (frames : List Bytes) : σ :=
  (frames.filterMap decodeRequest).foldl (fun s request => (processRequest handler request s).2) s

def replies (handler : Handler σ ε) : σ → List Bytes → List Packet
  | _, [] => []
  | s, bytes :: frames =>
      (respond handler bytes s).1 :: replies handler (respond handler bytes s).2 frames

theorem respond_state (handler : Handler σ ε) (bytes : Bytes) (s : σ) :
    (respond handler bytes s).2 = stateAfter handler s [bytes] := by
  cases decoded : Packet.tryFrom.run bytes with
  | error e => simp [respond, stateAfter, decodeRequest, decoded]
  | ok got =>
      cases request : got.1.isRequest with
      | true => simp [respond, stateAfter, decodeRequest, decoded, request]
      | false =>
          have ignored := processRequest_of_not_request handler got.1 s request
          simp [respond, stateAfter, decodeRequest, decoded, request, ignored]

theorem stateAfter_cons (handler : Handler σ ε) (s : σ) (bytes : Bytes) (frames : List Bytes) :
    stateAfter handler s (bytes :: frames) =
      stateAfter handler (respond handler bytes s).2 frames := by
  rw [respond_state, stateAfter, stateAfter, stateAfter, ← List.foldl_append,
    ← List.filterMap_append]
  rfl

@[simp]
theorem replies_length (handler : Handler σ ε) (s : σ) (frames : List Bytes) :
    (replies handler s frames).length = frames.length := by
  induction frames generalizing s with
  | nil => rfl
  | cons bytes frames ih => rw [replies, List.length_cons, ih, List.length_cons]

theorem replies_getElem? (handler : Handler σ ε) (s : σ) (frames : List Bytes) (i : Nat) :
    (replies handler s frames)[i]? =
      frames[i]?.map fun bytes =>
        (respond handler bytes (stateAfter handler s (frames.take i))).1 := by
  induction frames generalizing s i with
  | nil => simp [replies]
  | cons bytes frames ih =>
      cases i with
      | zero => rfl
      | succ i =>
          rw [replies, List.getElem?_cons_succ, List.getElem?_cons_succ, List.take_succ_cons,
            stateAfter_cons]
          exact ih _ i

/-! ## One round and all of them -/

theorem toBytes_eq_frame (p : Packet) (fits : p.body.length < 2 ^ 32) :
    p.toBytes = .ok (frame 4 p.body) := by
  have bodyLength : p.body.length = p.wire.length + 1 := by
    rw [Packet.body, List.length_append, putU8_length, Nat.add_comm]
  have lengthWord : UInt32.ofNat p.wire.length + 1 = UInt32.ofNat p.body.length := by
    rw [bodyLength, UInt32.ofNat_add]
    rfl
  rw [p.toBytes_eq, lengthWord, frame, putU32, UInt32.toNat_ofNat', Nat.mod_eq_of_lt fits]

theorem processHandler_frame (handler : Handler σ ε) (stream : Stream) (s : σ)
    (bytes rest : Bytes) (fits : bytes.length < 2 ^ 32)
    (shape : stream.input = frame 4 bytes ++ rest) (clean : stream.faults = [])
    (short : (respond handler bytes s).1.body.length < 2 ^ 32) :
    processHandler stream handler s =
      (.ok (), { stream with
        input := rest, output := stream.output ++ frame 4 (respond handler bytes s).1.body },
        (respond handler bytes s).2) := by
  have packet := stream.readPacket_frame bytes rest fits shape
  have written := Stream.writeAll_clean { stream with input := rest }
    (frame 4 (respond handler bytes s).1.body) clean
  simp only [processHandler, packet, toBytes_eq_frame _ short, written]

theorem processHandler_incomplete (handler : Handler σ ε) (stream : Stream) (s : σ)
    (incomplete : Incomplete 4 stream.input) :
    processHandler stream handler s =
      (.error (Error.ofIo stream.ending), { stream with input := [] }, s) := by
  simp only [processHandler, stream.readPacket_incomplete incomplete]

theorem run_splits (handler : Handler σ ε) (frames : List Bytes) (rest : Bytes)
    (stream : Stream) (s : σ) (fuel : Nat) (split : Splits 4 stream.input frames rest)
    (eof : Error.ofIo stream.ending = .unexpectedEof) (clean : stream.faults = [])
    (short : ∀ response ∈ replies handler s frames, response.body.length < 2 ^ 32)
    (enough : frames.length < fuel) :
    run handler fuel stream s =
      (true, { stream with
        input := [],
        output := stream.output ++ (replies handler s frames).flatMap fun p => frame 4 p.body },
        stateAfter handler s frames) := by
  induction frames generalizing stream s fuel with
  | nil =>
      obtain ⟨fuel, rfl⟩ : ∃ less, fuel = less + 1 := ⟨fuel - 1, by simp at enough; omega⟩
      have shape : stream.input = rest := split.whole
      have last := processHandler_incomplete handler stream s (shape ▸ split.incomplete)
      rw [eof] at last
      simp only [run, last, replies, List.flatMap_nil, List.append_nil]
      rfl
  | cons bytes frames ih =>
      rw [List.length_cons] at enough
      obtain ⟨fuel, rfl⟩ : ∃ less, fuel = less + 1 := ⟨fuel - 1, by omega⟩
      have shape := split.whole
      rw [List.flatMap_cons, List.append_assoc] at shape
      have round := processHandler_frame handler stream s bytes _
        (split.fits bytes (List.mem_cons_self ..)) shape clean
        (short _ (List.mem_cons_self ..))
      simp only [run, round]
      have later := ih { stream with
          input := frames.flatMap (frame 4) ++ rest
          output := stream.output ++ frame 4 (respond handler bytes s).1.body }
        (respond handler bytes s).2 fuel
        ⟨rfl, fun other member => split.fits other (List.mem_cons_of_mem _ member),
          split.incomplete⟩ eof clean
        (fun response member => short response (List.mem_cons_of_mem _ member)) (by omega)
      rw [later, stateAfter_cons, replies, List.flatMap_cons, List.append_assoc]

/-- Over every byte stream the loop answers each frame, in order and once, and ends. -/
theorem run_refines_frames (handler : Handler σ ε) (start : σ) (input : Bytes) :
    ∃ frames rest, Splits 4 input frames rest ∧
      (∀ frames' rest', Splits 4 input frames' rest' → frames' = frames ∧ rest' = rest) ∧
      ∃ responses : List Packet,
        responses.length = frames.length ∧
        (∀ i bytes, frames[i]? = some bytes →
          responses[i]? = some
            (match Packet.tryFrom.run bytes with
            | .ok (packet, _) =>
                (processRequest handler packet (stateAfter handler start (frames.take i))).1
            | .error _ => Packet.error 0 .badMessage)) ∧
        ((∀ response ∈ responses, ∀ encoded, response.toBytes = .ok encoded →
            encoded.length < 2 ^ 32) →
          ∃ encodings : List Bytes,
            responses.map Packet.toBytes = encodings.map .ok ∧
            (∃ bodies, encodings = bodies.map (frame 4) ∧
              Splits 4 encodings.flatten bodies []) ∧
            ∀ fuel, frames.length < fuel →
              run handler fuel ⟨input, .earlyEof, [], []⟩ start =
                (true, ⟨[], .earlyEof, encodings.flatten, []⟩,
                  stateAfter handler start frames)) := by
  obtain ⟨frames, rest, split⟩ := exists_splits (by decide : 0 < 4) input
  refine ⟨frames, rest, split, fun _ _ other => other.unique split,
    replies handler start frames, replies_length handler start frames, ?_, ?_⟩
  · intro i bytes at_i
    rw [replies_getElem?, at_i, Option.map_some, respond]
    cases Packet.tryFrom.run bytes <;> rfl
  · intro small
    have short : ∀ response ∈ replies handler start frames,
        response.body.length < 2 ^ 32 := by
      intro response member
      have encoded := small response member _ response.toBytes_eq
      rw [List.length_append] at encoded
      omega
    refine ⟨(replies handler start frames).map fun p => frame 4 p.body, ?_,
      ⟨(replies handler start frames).map Packet.body, ?_, ?_⟩, ?_⟩
    · rw [List.map_map]
      exact List.map_congr_left fun p member => toBytes_eq_frame p (short p member)
    · rw [List.map_map]
      rfl
    · refine ⟨?_, ?_, Or.inl (by decide)⟩
      · rw [List.append_nil, List.flatMap_map, List.flatMap_def]
      · intro body member
        obtain ⟨p, reply, rfl⟩ := List.mem_map.mp member
        exact short p reply
    · intro fuel enough
      rw [run_splits handler frames rest ⟨input, .earlyEof, [], []⟩ start fuel split rfl rfl short
        enough, List.nil_append, List.flatMap_def]

end RusshSftp.Server
