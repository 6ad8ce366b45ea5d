import RusshSftp.Lib.BigEndian
import RusshSftp.Lib.Utf8
import RusshSftp.Lib.Reader
import RusshSftp.Error

/-!
# Reading and writing the buffer

The `try_get_*` and `put_*` operations of the byte buffer, and `TryBuf`, which
adds length-prefixed byte vectors and strings to them.
-/

set_option autoImplicit false

namespace RusshSftp

open BigEndian Utf8 ByteCodec

abbrev De (α : Type) := ByteReader Error α

abbrev Ser := ByteWriter Error Unit

/-! ## Words -/

def putU8 (v : UInt8) : Bytes := [v]
def putU32 (v : UInt32) : Bytes := beBytes 4 v.toNat
def putU64 (v : UInt64) : Bytes := beBytes 8 v.toNat

def tryGet (width : Nat) : ByteReader TryGetError Nat := fun input =>
  if input.length < width then .error ⟨width, input.length⟩
  else .ok (beNat (input.take width), input.drop width)

def tryGetU8 : ByteReader TryGetError UInt8 := UInt8.ofNat <$> tryGet 1
def tryGetU32 : ByteReader TryGetError UInt32 := UInt32.ofNat <$> tryGet 4
def tryGetU64 : ByteReader TryGetError UInt64 := UInt64.ofNat <$> tryGet 8

/-! ## `TryBuf` -/

def tryGetBytes : De Bytes := do
  let len ← mapErr (fun e => .unexpectedBehavior e.display) tryGetU32
  let input ← get
  if input.length < len.toNat then throw (.badMessage "no remaining for vec")
  set (input.drop len.toNat)
  return input.take len.toNat

def tryGetString : De String := fromUtf8Lossy <$> tryGetBytes

/-! ## What is put is read back -/

@[simp] theorem putU8_length (v : UInt8) : (putU8 v).length = 1 := rfl
@[simp] theorem putU32_length (v : UInt32) : (putU32 v).length = 4 := beBytes_length _ _
@[simp] theorem putU64_length (v : UInt64) : (putU64 v).length = 8 := beBytes_length _ _

theorem tryGet_append (width : Nat) (front rest : Bytes) (exact : front.length = width) :
    (tryGet width).run (front ++ rest) = .ok (beNat front, rest) := by
  subst exact
  show (if _ then _ else _) = _
  rw [if_neg (by simp), List.take_left, List.drop_left]

theorem consumes_tryGetU8 (v : UInt8) : Consumes tryGetU8 (putU8 v) v := by
  have word : Consumes (tryGet 1) (putU8 v) (beNat (putU8 v)) := fun rest =>
    tryGet_append 1 (putU8 v) rest rfl
  have value : UInt8.ofNat (beNat (putU8 v)) = v := by simp [putU8, beNat]
  rw [← value]
  exact value.symm ▸ Consumes.map UInt8.ofNat word

theorem consumes_tryGetU32 (v : UInt32) : Consumes tryGetU32 (putU32 v) v := by
  have word : Consumes (tryGet 4) (putU32 v) (beNat (putU32 v)) := fun rest =>
    tryGet_append 4 (putU32 v) rest (putU32_length v)
  have value : UInt32.ofNat (beNat (putU32 v)) = v := by
    rw [putU32, beNat_beBytes_of_lt v.toNat_lt, UInt32.ofNat_toNat]
  have mapped := Consumes.map UInt32.ofNat word
  rwa [value] at mapped

theorem consumes_tryGetU64 (v : UInt64) : Consumes tryGetU64 (putU64 v) v := by
  have word : Consumes (tryGet 8) (putU64 v) (beNat (putU64 v)) := fun rest =>
    tryGet_append 8 (putU64 v) rest (putU64_length v)
  have value : UInt64.ofNat (beNat (putU64 v)) = v := by
    rw [putU64, beNat_beBytes_of_lt v.toNat_lt, UInt64.ofNat_toNat]
  have mapped := Consumes.map UInt64.ofNat word
  rwa [value] at mapped

/-- A length word and then that many bytes. -/
def lengthPrefixed (bytes : Bytes) : Bytes := putU32 (UInt32.ofNat bytes.length) ++ bytes

@[simp]
theorem lengthPrefixed_length (bytes : Bytes) :
    (lengthPrefixed bytes).length = 4 + bytes.length := by
  simp [lengthPrefixed]

theorem consumes_tryGetBytes (bytes : Bytes) (fits : bytes.length < 2 ^ 32) :
    Consumes tryGetBytes (lengthPrefixed bytes) bytes := by
  have len : (UInt32.ofNat bytes.length).toNat = bytes.length := by
    rw [UInt32.toNat_ofNat', Nat.mod_eq_of_lt fits]
  have word := Consumes.mapErr (fun e : TryGetError => Error.unexpectedBehavior e.display)
    (consumes_tryGetU32 (UInt32.ofNat bytes.length))
  refine word.bind ?_
  intro rest
  simp [len, StateT.run_bind, StateT.run_get, StateT.run_set]
  rfl

theorem consumes_tryGetString (text : String) (fits : (utf8Bytes text).length < 2 ^ 32) :
    Consumes tryGetString (lengthPrefixed (utf8Bytes text)) text := by
  have mapped := Consumes.map fromUtf8Lossy (consumes_tryGetBytes (utf8Bytes text) fits)
  rwa [fromUtf8Lossy_utf8Bytes] at mapped

/-! ## What is read was put -/

theorem tryGet_ok {width n : Nat} {input rest : Bytes}
    (read : (tryGet width).run input = .ok (n, rest)) :
    input = beBytes width n ++ rest ∧ n < 256 ^ width := by
  replace read : (if input.length < width then .error ⟨width, input.length⟩
    else .ok (beNat (input.take width), input.drop width) : Except TryGetError _) =
      .ok (n, rest) := read
  split at read
  · cases read
  · rename_i enough
    have taken : (input.take width).length = width := by
      rw [List.length_take]
      omega
    obtain ⟨rfl, rfl⟩ := Prod.mk.inj (Except.ok.inj read)
    have back := beBytes_beNat (input.take width)
    have bound := beNat_lt (input.take width)
    rw [taken] at back bound
    exact ⟨by rw [back, List.take_append_drop], bound⟩

theorem tryGetU32_ok {v : UInt32} {input rest : Bytes}
    (read : tryGetU32.run input = .ok (v, rest)) : input = putU32 v ++ rest := by
  obtain ⟨n, word, rfl⟩ := map_ok read
  obtain ⟨shape, bound⟩ := tryGet_ok word
  rw [putU32, UInt32.toNat_ofNat', Nat.mod_eq_of_lt (show n < 2 ^ 32 from bound)]
  exact shape

theorem tryGetU64_ok {v : UInt64} {input rest : Bytes}
    (read : tryGetU64.run input = .ok (v, rest)) : input = putU64 v ++ rest := by
  obtain ⟨n, word, rfl⟩ := map_ok read
  obtain ⟨shape, bound⟩ := tryGet_ok word
  rw [putU64, UInt64.toNat_ofNat', Nat.mod_eq_of_lt (show n < 2 ^ 64 from bound)]
  exact shape

theorem tryGetU8_ok {v : UInt8} {input rest : Bytes}
    (read : tryGetU8.run input = .ok (v, rest)) : input = putU8 v ++ rest := by
  obtain ⟨n, word, rfl⟩ := map_ok read
  obtain ⟨shape, -⟩ := tryGet_ok word
  rw [shape]
  show UInt8.ofNat (n / 256 ^ 0) :: rest = UInt8.ofNat n :: rest
  rw [pow_zero, Nat.div_one]

theorem tryGetBytes_ok {bytes input rest : Bytes}
    (read : tryGetBytes.run input = .ok (bytes, rest)) :
    input = lengthPrefixed bytes ++ rest ∧ bytes.length < 2 ^ 32 := by
  obtain ⟨len, left, word, body⟩ := bind_ok read
  have shape := tryGetU32_ok (mapErr_ok word)
  have lenLt := len.toNat_lt
  by_cases short : left.length < len.toNat
  · simp [bind, Except.bind, StateT.bind, get, getThe, MonadStateOf.get, StateT.get, pure,
      Except.pure, short, StateT.run, throw, throwThe, MonadExceptOf.throw, StateT.lift] at body
  · simp [bind, Except.bind, StateT.bind, get, getThe, MonadStateOf.get, StateT.get, pure,
      Except.pure, short, StateT.run, set, StateT.set, StateT.pure] at body
    obtain ⟨rfl, rfl⟩ := body
    have taken : (left.take len.toNat).length = len.toNat := by
      rw [List.length_take]
      omega
    refine ⟨?_, by omega⟩
    rw [lengthPrefixed, taken, UInt32.ofNat_toNat, List.append_assoc, List.take_append_drop]
    exact shape

theorem tryGetString_ok {text : String} {input rest : Bytes}
    (read : tryGetString.run input = .ok (text, rest)) :
    ∃ bytes, input = lengthPrefixed bytes ++ rest ∧ bytes.length < 2 ^ 32 ∧
      fromUtf8Lossy bytes = text := by
  obtain ⟨bytes, got, same⟩ := map_ok read
  obtain ⟨shape, bound⟩ := tryGetBytes_ok got
  exact ⟨bytes, shape, bound, same⟩

end RusshSftp
