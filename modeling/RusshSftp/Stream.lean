import RusshSftp.Lib.Framing
import RusshSftp.Buf

/-!
# The byte stream under a session

A stream gives its bytes in order and from then on answers every read with one
error, the end of file or another.  It takes what is written to it; a write
that fails may have left the first bytes of it behind.
-/

set_option autoImplicit false

namespace RusshSftp

open BigEndian Framing

structure WriteFault where
  written : Nat
  error : IoError
deriving DecidableEq, Repr

structure Stream where
  input : Bytes
  ending : IoError
  output : Bytes
  /-- What the next writes come to; the writes after these succeed. -/
  faults : List (Option WriteFault)
deriving DecidableEq, Repr

/-- What `read_exact` gives at the end of a stream. -/
def IoError.earlyEof : IoError := ⟨.unexpectedEof, some "early eof"⟩

namespace Stream

/-- A failed read has taken what there was. -/
def readExact (n : Nat) (s : Stream) : Except IoError Bytes × Stream :=
  if n ≤ s.input.length then (.ok (s.input.take n), { s with input := s.input.drop n })
  else (.error s.ending, { s with input := [] })

def readU32 (s : Stream) : Except IoError UInt32 × Stream :=
  match s.readExact 4 with
  | (.ok word, s) => (.ok (UInt32.ofNat (beNat word)), s)
  | (.error e, s) => (.error e, s)

def readPacket (s : Stream) : Except Error Bytes × Stream :=
  match s.readU32 with
  | (.error e, s) => (.error (Error.ofIo e), s)
  | (.ok length, s) =>
      match s.readExact length.toNat with
      | (.error e, s) => (.error (Error.ofIo e), s)
      | (.ok buf, s) => (.ok buf, s)

/-- `write_all` and `flush`. -/
def writeAll (packet : Bytes) (s : Stream) : Except IoError Unit × Stream :=
  match s.faults with
  | [] => (.ok (), { s with output := s.output ++ packet })
  | none :: faults => (.ok (), { s with output := s.output ++ packet, faults })
  | some fault :: faults =>
      (.error fault.error, { s with output := s.output ++ packet.take fault.written, faults })

/-! ## Reading frames -/

theorem readExact_append (s : Stream) (front rest : Bytes) (shape : s.input = front ++ rest) :
    s.readExact front.length = (.ok front, { s with input := rest }) := by
  rw [readExact, shape, if_pos (by rw [List.length_append]; omega), List.take_left, List.drop_left]

theorem readU32_append (s : Stream) (v : UInt32) (rest : Bytes)
    (shape : s.input = putU32 v ++ rest) : s.readU32 = (.ok v, { s with input := rest }) := by
  have word := s.readExact_append (putU32 v) rest shape
  rw [putU32_length] at word
  have value : UInt32.ofNat (beNat (putU32 v)) = v := by
    rw [putU32, beNat_beBytes_of_lt v.toNat_lt, UInt32.ofNat_toNat]
  simp only [readU32, word, value]

theorem readPacket_frame (s : Stream) (body rest : Bytes) (fits : body.length < 2 ^ 32)
    (shape : s.input = frame 4 body ++ rest) :
    s.readPacket = (.ok body, { s with input := rest }) := by
  have len : (UInt32.ofNat body.length).toNat = body.length := by
    rw [UInt32.toNat_ofNat', Nat.mod_eq_of_lt fits]
  have prefixed : s.input = putU32 (UInt32.ofNat body.length) ++ (body ++ rest) := by
    rw [shape, frame, putU32, len, List.append_assoc]
  have word := s.readU32_append _ _ prefixed
  have buf := readExact_append { s with input := body ++ rest } body rest rfl
  simp only [readPacket, word, len, buf]

/-- What does not hold a whole frame is used up by the read that finds this out. -/
theorem readPacket_incomplete (s : Stream) (incomplete : Incomplete 4 s.input) :
    s.readPacket = (.error (Error.ofIo s.ending), { s with input := [] }) := by
  by_cases cut : s.input.length < 4
  · have word : s.readExact 4 = (.error s.ending, { s with input := [] }) := by
      rw [readExact, if_neg (by omega)]
    simp only [readPacket, readU32, word]
  · have word : s.readExact 4 =
        (.ok (s.input.take 4), { s with input := s.input.drop 4 }) := by
      rw [readExact, if_pos (by omega)]
    have bound := beNat_lt (s.input.take 4)
    have taken : (s.input.take 4).length = 4 := by
      rw [List.length_take]
      omega
    rw [taken] at bound
    have len : (UInt32.ofNat (beNat (s.input.take 4))).toNat = beNat (s.input.take 4) := by
      rw [UInt32.toNat_ofNat', Nat.mod_eq_of_lt (show _ < 2 ^ 32 from bound)]
    have short : ¬ beNat (s.input.take 4) ≤ (s.input.drop 4).length := by
      rw [List.length_drop]
      rcases incomplete with less | less <;> omega
    have buf : readExact (beNat (s.input.take 4)) { s with input := s.input.drop 4 } =
        (.error s.ending, { s with input := [] }) := by
      rw [readExact, if_neg short]
    simp only [readPacket, readU32, word, len, buf]

theorem writeAll_clean (s : Stream) (packet : Bytes) (clean : s.faults = []) :
    s.writeAll packet = (.ok (), { s with output := s.output ++ packet }) := by
  simp only [writeAll, clean]

end Stream

end RusshSftp
