import Mathlib

/-!
# Big-endian words

`beBytes width n` is the big-endian encoding of `n` in `width` bytes and
`beNat` the number a list of bytes stands for.  Each undoes the other: on
numbers that fit the width, and on every list of bytes.
-/

set_option autoImplicit false

namespace BigEndian

def beBytes : Nat → Nat → List UInt8
  | 0, _ => []
  | width + 1, n => UInt8.ofNat (n / 256 ^ width) :: beBytes width n

def beNat : List UInt8 → Nat
  | [] => 0
  | byte :: rest => byte.toNat * 256 ^ rest.length + beNat rest

@[simp]
theorem beBytes_length (width n : Nat) : (beBytes width n).length = width := by
  induction width with
  | zero => rfl
  | succ width ih => simp [beBytes, ih]

theorem beNat_lt (bytes : List UInt8) : beNat bytes < 256 ^ bytes.length := by
  induction bytes with
  | nil => simp [beNat]
  | cons byte rest ih =>
      have byteLt : byte.toNat < 256 := byte.toNat_lt
      have lifted : byte.toNat * 256 ^ rest.length + 256 ^ rest.length ≤
          256 * 256 ^ rest.length := by
        calc byte.toNat * 256 ^ rest.length + 256 ^ rest.length
            = (byte.toNat + 1) * 256 ^ rest.length := by ring
          _ ≤ 256 * 256 ^ rest.length := Nat.mul_le_mul_right _ byteLt
      simp only [beNat, List.length_cons, pow_succ']
      omega

theorem beNat_beBytes (width n : Nat) : beNat (beBytes width n) = n % 256 ^ width := by
  induction width with
  | zero => simp [beNat, beBytes, Nat.mod_one]
  | succ width ih =>
      simp only [beBytes, beNat, beBytes_length, ih, UInt8.toNat_ofNat']
      rw [show (2 : Nat) ^ 8 = 256 from rfl, pow_succ, Nat.mod_mul, Nat.mul_comm]
      exact Nat.add_comm _ _

theorem beNat_beBytes_of_lt {width n : Nat} (fits : n < 256 ^ width) :
    beNat (beBytes width n) = n := by
  rw [beNat_beBytes, Nat.mod_eq_of_lt fits]

/-- Only the low `width` bytes of the number matter. -/
theorem beBytes_add_mul (width n k : Nat) :
    beBytes width (n + k * 256 ^ width) = beBytes width n := by
  induction width generalizing k with
  | zero => rfl
  | succ width ih =>
      have regroup : k * 256 ^ (width + 1) = k * 256 * 256 ^ width := by ring
      have highByte : (n + k * 256 * 256 ^ width) / 256 ^ width =
          n / 256 ^ width + k * 256 :=
        Nat.add_mul_div_right _ _ (by positivity)
      have sameByte : UInt8.ofNat (n / 256 ^ width + k * 256) =
          UInt8.ofNat (n / 256 ^ width) := by
        apply UInt8.toNat_inj.mp
        simp [UInt8.toNat_ofNat']
      simp only [beBytes, regroup, highByte, sameByte, ih]

theorem beBytes_beNat (bytes : List UInt8) : beBytes bytes.length (beNat bytes) = bytes := by
  induction bytes with
  | nil => rfl
  | cons byte rest ih =>
      have restLt := beNat_lt rest
      have highByte : (byte.toNat * 256 ^ rest.length + beNat rest) / 256 ^ rest.length =
          byte.toNat := by
        rw [Nat.add_comm, Nat.add_mul_div_right _ _ (by positivity),
          Nat.div_eq_of_lt restLt, Nat.zero_add]
      simp only [List.length_cons, beBytes, beNat, highByte, UInt8.ofNat_toNat]
      rw [Nat.add_comm, beBytes_add_mul, ih]

end BigEndian
