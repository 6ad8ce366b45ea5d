import RusshSftp.Protocol.Fields

/-!
# Length words

A frame begins with its length, and strings, data and lists of files in it begin with theirs.  Each
of these words is a `usize` cast to 32 bits, and nothing on the way fails.  They are true as long as
the packet itself is small enough for its frame.
-/

set_option autoImplicit false

namespace RusshSftp

open Utf8 ByteCodec

/-- A part of what is written: bytes, or a word that gives a length. -/
inductive Part where
  | plain (bytes : Bytes)
  | length (n : Nat)
deriving DecidableEq, Repr

/-- The bytes are the parts, and each length word is the length that it stands for. -/
def TrueParts : List Part → Bytes → Prop
  | [], bytes => bytes = []
  | .plain front :: parts, bytes => ∃ rest, bytes = front ++ rest ∧ TrueParts parts rest
  | .length n :: parts, bytes =>
      ∃ word rest, bytes = putU32 word ++ rest ∧ word.toNat = n ∧ TrueParts parts rest

namespace Part

def size : Part → Nat
  | .plain bytes => bytes.length
  | .length _ => 4

/-- A part as it is written, with the length in 32 bits. -/
def wire : Part → Bytes
  | .plain bytes => bytes
  | .length n => putU32 (UInt32.ofNat n)

theorem wire_length (part : Part) : part.wire.length = part.size := by
  cases part with
  | plain bytes => rfl
  | length n => exact putU32_length _

theorem wires_length (parts : List Part) :
    (parts.flatMap wire).length = (parts.map size).sum := by
  rw [List.length_flatMap]
  exact congrArg List.sum (List.map_congr_left fun part _ => part.wire_length)

end Part

/-- Lengths below `2 ^ 32` are written as they are. -/
theorem trueParts_wire {parts : List Part} (few : ∀ n, .length n ∈ parts → n < 2 ^ 32) :
    TrueParts parts (parts.flatMap Part.wire) := by
  induction parts with
  | nil => rfl
  | cons part parts ih =>
      have later := ih fun n member => few n (List.mem_cons_of_mem _ member)
      cases part with
      | plain bytes => exact ⟨_, rfl, later⟩
      | length n =>
          refine ⟨UInt32.ofNat n, _, rfl, ?_, later⟩
          exact UInt32.toNat_ofNat_of_lt' (few n (List.mem_cons_self ..))

/-! ## The parts of a packet -/

/-- A string or data, after its length. -/
def countedParts (bytes : Bytes) : List Part := [.length bytes.length, .plain bytes]

def FileFields.parts (file : FileFields) : List Part :=
  countedParts file.filename ++ (countedParts file.longname ++ [.plain file.block.wire])

def Field.parts : Field → List Part
  | .text bytes => countedParts bytes
  | .data bytes => countedParts bytes
  | .files list => .length list.length :: list.flatMap FileFields.parts
  | .entries pairs => pairs.flatMap fun pair => countedParts pair.1 ++ countedParts pair.2
  | .word v => [.plain (putU32 v)]
  | .long v => [.plain (putU64 v)]
  | .code status => [.plain (putU32 status.variantIndex)]
  | .block attrs => [.plain attrs.wire]
  | .rest bytes => [.plain bytes]

namespace Packet

/-- What follows the length of a frame: the type and the fields. -/
def parts (p : Packet) : List Part := .plain (putU8 p.typed.1) :: p.fields.flatMap Field.parts

/-- The number of bytes that follow the length of a frame. -/
def size (p : Packet) : Nat := (p.parts.map Part.size).sum

/-- The frame begins with the number of bytes that follow, and all lengths in it are true. -/
def TrueFrame (p : Packet) (frame : Bytes) : Prop :=
  ∃ word rest, frame = putU32 word ++ rest ∧ word.toNat = rest.length ∧ TrueParts p.parts rest

/-- `payload.len() as u32 + 1` does not overflow. -/
def NoOverflow (p : Packet) : Prop :=
  ∀ payload, p.payload = .ok payload → (UInt32.ofNat payload.length).toNat + 1 < 2 ^ 32

end Packet

theorem countedParts_wire (bytes : Bytes) :
    (countedParts bytes).flatMap Part.wire = lengthPrefixed bytes := by
  rw [lengthPrefixed]
  simp [countedParts, Part.wire]

theorem FileFields.parts_wire (file : FileFields) : file.parts.flatMap Part.wire = file.wire := by
  rw [parts, List.flatMap_append, List.flatMap_append, countedParts_wire, countedParts_wire, wire]
  simp [Part.wire]

theorem Field.parts_wire (field : Field) : field.parts.flatMap Part.wire = field.wire := by
  cases field with
  | text bytes => exact countedParts_wire bytes
  | data bytes => exact countedParts_wire bytes
  | files list =>
      rw [parts, List.flatMap_cons, List.flatMap_assoc]
      simp only [FileFields.parts_wire]
      rfl
  | entries pairs =>
      rw [parts, List.flatMap_assoc]
      simp only [List.flatMap_append, countedParts_wire]
      rfl
  | word v => exact List.append_nil _
  | long v => exact List.append_nil _
  | code status => exact List.append_nil _
  | block attrs => exact List.append_nil _
  | rest bytes => exact List.append_nil _

theorem Packet.parts_wire (p : Packet) : p.parts.flatMap Part.wire = p.body := by
  rw [parts, List.flatMap_cons, List.flatMap_assoc, body, wire_eq_fields]
  simp only [Field.parts_wire]
  rfl

theorem Packet.body_length (p : Packet) : p.body.length = p.size := by
  rw [← parts_wire, Part.wires_length, size]

/-! ## No length is more than the whole -/

theorem counted_le {bytes : Bytes} {n : Nat} (member : .length n ∈ countedParts bytes) :
    n ≤ (lengthPrefixed bytes).length := by
  rw [lengthPrefixed_length]
  simp only [countedParts, List.mem_cons, Part.length.injEq, reduceCtorEq, List.not_mem_nil,
    or_false] at member
  omega

theorem FileFields.length_le {file : FileFields} {n : Nat} (member : .length n ∈ file.parts) :
    n ≤ file.wire.length := by
  rw [wire, List.length_append, List.length_append]
  simp only [parts, List.mem_append, List.mem_singleton, reduceCtorEq, or_false] at member
  rcases member with name | long
  · have inside := counted_le name
    omega
  · have inside := counted_le long
    omega

theorem Field.length_le {field : Field} {n : Nat} (member : .length n ∈ field.parts) :
    n ≤ field.wire.length := by
  cases field with
  | text bytes => exact counted_le member
  | data bytes => exact counted_le member
  | files list =>
      rw [wire, List.length_append]
      rcases List.mem_cons.mp member with count | inside
      · have few := count_le_flatMap FileFields.wire_pos list
        cases count
        omega
      · obtain ⟨file, listed, own⟩ := List.mem_flatMap.mp inside
        have whole := length_le_flatMap FileFields.wire listed
        have part := FileFields.length_le own
        omega
  | entries pairs =>
      obtain ⟨pair, listed, own⟩ := List.mem_flatMap.mp member
      have whole := length_le_flatMap rawEntryWire listed
      rw [rawEntryWire, List.length_append] at whole
      refine Nat.le_trans ?_ whole
      rcases List.mem_append.mp own with key | value
      · exact Nat.le_trans (counted_le key) (Nat.le_add_right _ _)
      · exact Nat.le_trans (counted_le value) (Nat.le_add_left _ _)
  | word v => simp [parts] at member
  | long v => simp [parts] at member
  | code status => simp [parts] at member
  | block attrs => simp [parts] at member
  | rest bytes => simp [parts] at member

theorem Packet.length_le {p : Packet} {n : Nat} (member : .length n ∈ p.parts) : n ≤ p.size := by
  rw [← body_length, body, List.length_append, wire_eq_fields]
  rcases List.mem_cons.mp member with type | inside
  · cases type
  · obtain ⟨field, listed, own⟩ := List.mem_flatMap.mp inside
    have whole := length_le_flatMap Field.wire listed
    have part := Field.length_le own
    omega

/-! ## When the frame is true -/

namespace Packet

/-- The lengths are true in every frame that comes out, and none overflows on the way. -/
def LengthsTrue (p : Packet) : Prop :=
  (∀ frame, p.toBytes = .ok frame → p.TrueFrame frame) ∧ p.NoOverflow

theorem wire_length_succ (p : Packet) : p.wire.length + 1 = p.size := by
  rw [← body_length, body, List.length_append, putU8_length, Nat.add_comm]

/-- A packet that fits the length of its frame has all its lengths true. -/
theorem lengthsTrue_of_size {p : Packet} (small : p.size < 2 ^ 32) : p.LengthsTrue := by
  have whole := p.wire_length_succ
  constructor
  · intro frame encoded
    rw [toBytes_eq] at encoded
    cases encoded
    refine ⟨_, p.body, rfl, ?_, ?_⟩
    · have word : UInt32.ofNat p.wire.length + 1 = UInt32.ofNat p.size := by
        rw [← whole, UInt32.ofNat_add]
        rfl
      rw [word, body_length]
      exact UInt32.toNat_ofNat_of_lt' small
    · rw [← parts_wire]
      exact trueParts_wire fun n member => Nat.lt_of_le_of_lt (length_le member) small
  · intro payload encoded
    rw [payload_eq] at encoded
    cases encoded
    rw [UInt32.toNat_ofNat_of_lt' (show p.wire.length < 2 ^ 32 by omega)]
    omega

/-- A true frame is no longer than its length can say. -/
theorem size_of_lengthsTrue {p : Packet} (holds : p.LengthsTrue) : p.size < 2 ^ 32 := by
  obtain ⟨word, rest, shape, length, _⟩ := holds.1 _ p.toBytes_eq
  obtain ⟨_, same⟩ := List.append_inj shape (by rw [putU32_length, putU32_length])
  rw [← body_length, same, ← length]
  exact word.toNat_lt

/-- A packet of any size gets a frame with true lengths just when its parts and its type are fewer
than `2 ^ 32` bytes. -/
theorem lengths_true_iff (p : Packet) : p.LengthsTrue ↔ p.size < 2 ^ 32 :=
  ⟨size_of_lengthsTrue, lengthsTrue_of_size⟩

/-- A write of zeros. -/
def writeZeros (count : Nat) : Packet := .write ⟨0, "h", 0, List.replicate count 0⟩

theorem writeZeros_length (count : Nat) : (writeZeros count).wire.length = 21 + count := by
  have handle : (utf8Bytes "h").length = 1 := by decide
  rw [writeZeros, wire, strWire]
  simp only [List.length_append, lengthPrefixed_length, putU32_length, putU64_length, handle,
    List.length_replicate]
  omega

/-- A write of four gigabytes is sent with a frame length of 22 and a data length of 0. -/
theorem length_words_wrap :
    (∃ front, (writeZeros (2 ^ 32)).toBytes =
        .ok (putU32 22 ++ (front ++ (putU32 0 ++ List.replicate (2 ^ 32) 0))) ∧
      front.length = 18) ∧
      (writeZeros (2 ^ 32)).size = 22 + 2 ^ 32 ∧ ¬ (writeZeros (2 ^ 32)).LengthsTrue := by
  have size : (writeZeros (2 ^ 32)).size = 22 + 2 ^ 32 := by
    rw [← wire_length_succ, writeZeros_length]
    omega
  refine ⟨⟨putU8 6 ++ (putU32 0 ++ (strWire "h" ++ putU64 0)), ?_, by decide⟩, size, ?_⟩
  · have word : UInt32.ofNat (21 + 2 ^ 32) + 1 = 22 := by decide
    have count : UInt32.ofNat (2 ^ 32) = 0 := by decide
    rw [toBytes_eq, writeZeros_length, word, body, writeZeros, wire, lengthPrefixed,
      List.length_replicate, count]
    simp only [List.append_assoc]
    rfl
  · intro holds
    have small := size_of_lengthsTrue holds
    omega

end Packet

end RusshSftp
