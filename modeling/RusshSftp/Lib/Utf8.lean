import Mathlib

/-!
# UTF-8 and its lossy decoding

`utf8Bytes` are the bytes of a string.  `fromUtf8Lossy` reads any byte list:
a well-formed character is kept, and each maximal ill-formed prefix of at most
three bytes becomes one replacement character U+FFFD.  On the bytes of a string
it is the inverse of `utf8Bytes`.
-/

set_option autoImplicit false

namespace Utf8

def utf8Bytes (text : String) : List UInt8 := text.toList.flatMap String.utf8EncodeChar

/-- The character a byte list starts with, if it starts with a well-formed one. -/
def decodeChar? (bytes : List UInt8) : Option Char := bytes.toByteArray.utf8DecodeChar? 0

def isContinuation (byte : UInt8) : Bool := byte &&& 0xC0 == 0x80

/-- First two bytes that can begin a character of three bytes. -/
def beginsThree (first second : UInt8) : Bool :=
  (first == 0xE0 && 0xA0 ≤ second && second ≤ 0xBF) ||
  (0xE1 ≤ first && first ≤ 0xEC && isContinuation second) ||
  (first == 0xED && 0x80 ≤ second && second ≤ 0x9F) ||
  (0xEE ≤ first && first ≤ 0xEF && isContinuation second)

/-- First two bytes that can begin a character of four bytes. -/
def beginsFour (first second : UInt8) : Bool :=
  (first == 0xF0 && 0x90 ≤ second && second ≤ 0xBF) ||
  (0xF1 ≤ first && first ≤ 0xF3 && isContinuation second) ||
  (first == 0xF4 && 0x80 ≤ second && second ≤ 0x8F)

/-- How many bytes one replacement character stands for, at the start of a list
that does not start with a well-formed character. -/
def illFormedLength : List UInt8 → Nat
  | first :: second :: rest =>
    if beginsThree first second then 2
    else if beginsFour first second then
      match rest with
      | third :: _ => if isContinuation third then 3 else 2
      | [] => 2
    else 1
  | _ => 1

def lossyChars : Nat → List UInt8 → List Char
  | 0, _ => []
  | _ + 1, [] => []
  | fuel + 1, byte :: rest =>
    match decodeChar? (byte :: rest) with
    | some c => c :: lossyChars fuel ((byte :: rest).drop c.utf8Size)
    | none =>
        Char.ofNat 0xFFFD ::
          lossyChars fuel ((byte :: rest).drop (illFormedLength (byte :: rest)))

/-- Every round takes at least one byte, so the length of the input is enough fuel. -/
def fromUtf8Lossy (bytes : List UInt8) : String := String.ofList (lossyChars bytes.length bytes)

theorem decodeChar?_encode_append (c : Char) (rest : List UInt8) :
    decodeChar? (String.utf8EncodeChar c ++ rest) = some c := by
  rw [decodeChar?, List.toByteArray_append]
  exact ByteArray.utf8DecodeChar?_utf8EncodeChar_append

theorem lossyChars_encode (chars : List Char) (fuel : Nat)
    (enough : (chars.flatMap String.utf8EncodeChar).length ≤ fuel) :
    lossyChars fuel (chars.flatMap String.utf8EncodeChar) = chars := by
  induction chars generalizing fuel with
  | nil => cases fuel <;> rfl
  | cons c rest ih =>
      have sizePos := c.utf8Size_pos
      have encodedLength : (String.utf8EncodeChar c).length = c.utf8Size :=
        String.length_utf8EncodeChar c
      rw [List.flatMap_cons] at enough ⊢
      rw [List.length_append, encodedLength] at enough
      obtain ⟨fuel, rfl⟩ : ∃ less, fuel = less + 1 := ⟨fuel - 1, by omega⟩
      have decoded := decodeChar?_encode_append c (rest.flatMap String.utf8EncodeChar)
      have dropped : (String.utf8EncodeChar c ++ rest.flatMap String.utf8EncodeChar).drop
          c.utf8Size = rest.flatMap String.utf8EncodeChar := by
        rw [← encodedLength, List.drop_left]
      cases shape : String.utf8EncodeChar c ++ rest.flatMap String.utf8EncodeChar with
      | nil =>
          have := congrArg List.length shape
          rw [List.length_append, encodedLength] at this
          simp only [List.length_nil] at this
          omega
      | cons byte tail =>
          rw [shape] at decoded dropped
          simp only [lossyChars, decoded, dropped]
          rw [ih fuel (by omega)]

/-- Lossy decoding loses nothing of a string. -/
theorem fromUtf8Lossy_utf8Bytes (text : String) : fromUtf8Lossy (utf8Bytes text) = text := by
  rw [fromUtf8Lossy, utf8Bytes, lossyChars_encode _ _ le_rfl, String.ofList_toList]

theorem utf8Bytes_injective {left right : String} (same : utf8Bytes left = utf8Bytes right) :
    left = right := by
  rw [← fromUtf8Lossy_utf8Bytes left, same, fromUtf8Lossy_utf8Bytes]

/-! ## How much lossy decoding adds -/

theorem utf8Size_le_of_decodeChar? {bytes : List UInt8} {c : Char}
    (decoded : decodeChar? bytes = some c) : c.utf8Size ≤ bytes.length := by
  have inside := ByteArray.le_size_of_utf8DecodeChar?_eq_some decoded
  rwa [Nat.zero_add, List.size_toByteArray] at inside

theorem illFormedLength_pos (bytes : List UInt8) : 0 < illFormedLength bytes := by
  unfold illFormedLength
  split
  · split
    · decide
    · split
      · split
        · split <;> decide
        · decide
      · decide
  · decide

/-- A replacement character is written in three bytes, and comes of at least one. -/
theorem lossyChars_length_le (fuel : Nat) (bytes : List UInt8) :
    ((lossyChars fuel bytes).flatMap String.utf8EncodeChar).length ≤
      bytes.length + 2 * (lossyChars fuel bytes).count (Char.ofNat 0xFFFD) := by
  induction fuel generalizing bytes with
  | zero => exact Nat.zero_le _
  | succ fuel ih =>
      cases bytes with
      | nil => exact Nat.zero_le _
      | cons byte rest =>
          rw [lossyChars]
          cases decoded : decodeChar? (byte :: rest) with
          | some c =>
              dsimp only
              have later := ih ((byte :: rest).drop c.utf8Size)
              have inside := utf8Size_le_of_decodeChar? decoded
              have fewer := List.count_le_count_cons (a := Char.ofNat 0xFFFD) (b := c)
                (l := lossyChars fuel ((byte :: rest).drop c.utf8Size))
              rw [List.length_drop] at later
              rw [List.flatMap_cons, List.length_append, String.length_utf8EncodeChar]
              omega
          | none =>
              dsimp only
              have later := ih ((byte :: rest).drop (illFormedLength (byte :: rest)))
              have some_bytes := illFormedLength_pos (byte :: rest)
              have three : (String.utf8EncodeChar (Char.ofNat 0xFFFD)).length = 3 := by decide
              rw [List.length_drop, List.length_cons] at later
              rw [List.flatMap_cons, List.length_append, three, List.count_cons_self,
                List.length_cons]
              omega

/-- What is decoded is written in no more bytes than it came from, but for the replacements. -/
theorem utf8Bytes_fromUtf8Lossy_length_le (bytes : List UInt8) :
    (utf8Bytes (fromUtf8Lossy bytes)).length ≤
      bytes.length + 2 * (fromUtf8Lossy bytes).toList.count (Char.ofNat 0xFFFD) := by
  rw [utf8Bytes, fromUtf8Lossy, String.toList_ofList]
  exact lossyChars_length_le bytes.length bytes

end Utf8
