import RusshSftp.Client.File

/-!
# The length that a read asks for

`poll_read` bounds the length by the limit of the server, a `u64`, and by the room in the buffer, a
`usize`, and sends it as a `u32`.  Nothing bounds it by the width of the field it is sent in.
-/

set_option autoImplicit false

namespace RusshSftp.Client

/-- The most that the server lets a read ask for, or else the default of the client. -/
def readLimit (limits : Option LimitsExtension) : Nat :=
  match limits with
  | none => 261120
  | some l => if l.maxReadLen = 0 then 261120 else l.maxReadLen.toNat

/-- A poll of a read issues a READ at the cursor, for at least one byte, at most the room in the
buffer and at most the limit. -/
def IssuesRead (limit : Nat) (f : File) (buf : ReadBuf) (turn : Turn) : Prop :=
  ∃ len : UInt32, (f.pollRead buf turn).1.sent = [.read f.handle f.pos len] ∧
    0 < len.toNat ∧ len.toNat ≤ min buf.remaining limit

section
variable {f : File} {fsync : Bool} {limits : Option LimitsExtension}

theorem maxReadLen_negotiated (negotiated : f.extensions = .negotiated fsync limits) :
    f.maxReadLen = readLimit limits := by
  rw [File.maxReadLen, negotiated, SessionExtensions.negotiated]
  cases limits with
  | none => rfl
  | some l =>
      rw [readLimit, Option.map_some, Option.bind_some, Limits.ofExtension]
      by_cases unset : l.maxReadLen = 0
      · rw [if_pos unset, unset]
        rfl
      · have positive : l.maxReadLen > 0 := UInt64.pos_iff_ne_zero.mpr unset
        rw [if_neg unset, if_pos positive, Option.getD_some]

/-- `len as u32` keeps the length modulo `2 ^ 32`. -/
theorem readCall_len_mod (f : File) (buf : ReadBuf) :
    (f.readCall buf).len.toNat = min buf.remaining f.maxReadLen % 2 ^ 32 := by
  rw [File.readCall, UInt32.toNat_ofNat']
  by_cases more : buf.remaining > f.maxReadLen
  · rw [if_pos more, Nat.min_eq_right (Nat.le_of_lt more)]
  · rw [if_neg more, Nat.min_eq_left (Nat.le_of_not_lt more)]

/-- The READ of a poll of a read that has some room asks for what it should, just when the smaller
one of the room and the limit is no multiple of `2 ^ 32`. -/
theorem read_length_iff (negotiated : f.extensions = .negotiated fsync limits)
    (idle : f.state.fRead = none) (buf : ReadBuf) {turn : Turn} (goes : turn.refuses = false) :
    IssuesRead (readLimit limits) f buf turn ↔ ¬ 2 ^ 32 ∣ min buf.remaining (readLimit limits) := by
  have sent : (f.pollRead buf turn).1.sent = [.read f.handle f.pos (f.readCall buf).len] := by
    rw [File.pollRead_sent, idle, goes, File.readRequest]
    rfl
  have len := readCall_len_mod f buf
  rw [maxReadLen_negotiated negotiated] at len
  have below : min buf.remaining (readLimit limits) % 2 ^ 32 ≤
      min buf.remaining (readLimit limits) := Nat.mod_le _ _
  rw [Nat.dvd_iff_mod_eq_zero]
  constructor
  · intro issues
    obtain ⟨asked, issued, some_bytes, _⟩ := issues
    rw [sent] at issued
    cases issued
    omega
  · intro whole
    exact ⟨(f.readCall buf).len, sent, by omega, by omega⟩

end

/-- A server that sets limits of four gigabytes. -/
def fourGigabytes : LimitsExtension := ⟨0, 2 ^ 32, 2 ^ 32, 0⟩

/-- A buffer with room for one byte more. -/
theorem read_length_iff_more :
    IssuesRead (readLimit (some ⟨0, 2 ^ 32 + 1, 0, 0⟩))
      (.new "f" (.negotiated false (some ⟨0, 2 ^ 32 + 1, 0, 0⟩))) (.empty (2 ^ 32 + 1)) .pending :=
  (read_length_iff rfl rfl (.empty (2 ^ 32 + 1)) rfl).mpr (by decide)

/-- A read into four gigabytes of room asks for no bytes, and the answer leaves the buffer as it
was, as at the end of the file. -/
theorem read_asks_nothing :
    (File.pollRead (.new "f" (.negotiated false (some fourGigabytes))) (.empty (2 ^ 32))
        .pending).1.sent = [.read "f" 0 0] ∧
      ¬ IssuesRead (readLimit (some fourGigabytes))
        (.new "f" (.negotiated false (some fourGigabytes))) (.empty (2 ^ 32)) .pending ∧
      (File.pollRead (.new "f" (.negotiated false (some fourGigabytes))) (.empty (2 ^ 32))
        (.ready (.ok (.data ⟨0, []⟩)))).1.poll = .ready (.ok ()) ∧
      (File.pollRead (.new "f" (.negotiated false (some fourGigabytes))) (.empty (2 ^ 32))
        (.ready (.ok (.data ⟨0, []⟩)))).2 = .empty (2 ^ 32) := by
  have sent : (File.pollRead (.new "f" (.negotiated false (some fourGigabytes))) (.empty (2 ^ 32))
      .pending).1.sent = [.read "f" 0 0] := by
    decide
  refine ⟨sent, ?_, by decide, by decide⟩
  intro issues
  obtain ⟨len, issued, some_bytes, _⟩ := issues
  rw [sent] at issued
  cases issued
  exact absurd some_bytes (by decide)

end RusshSftp.Client
