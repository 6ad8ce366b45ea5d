import RusshSftp.Client.FileCursor

/-!
# How far a seek can go

The future of a seek turns each `u64` into an `i64`, adds, and refuses a negative sum.  It is
exact as long as the target and the number that it is counted from are on one side of `2 ^ 63`;
a file whose size has the top bit set counts as one that ends before its beginning.
-/

set_option autoImplicit false

namespace RusshSftp.Client

/-- The position that a seek asks for, as a number. -/
def SeekFrom.target (pos size : UInt64) : SeekFrom → Int
  | .start target => target.toNat
  | .current offset => pos.toNat + offset.toInt
  | .end offset => size.toNat + offset.toInt

/-- The sum of two `i64` is none. -/
def Overflows (a b : Int64) : Prop :=
  a.toInt + b.toInt < -2 ^ 63 ∨ 2 ^ 63 ≤ a.toInt + b.toInt

/-- What the future of a seek adds, if it adds anything. -/
def File.seekAdds (f : File) (answer : SftpResult Packet) : SeekFrom → Option (Int64 × Int64)
  | .start _ => none
  | .current offset => some (f.pos.toInt64, offset)
  | .end offset =>
      match answer.bind (intoWithStatus attrs?) with
      | .ok reply => reply.attrs.size.map fun size => (size.toInt64, offset)
      | .error _ => none

/-- The target if it is in range, and an error if it is not. -/
def Gives (there : Except String UInt64) (target : Int) : Prop :=
  (0 ≤ target → target < 2 ^ 63 → there = .ok (UInt64.ofNat target.toNat)) ∧
    (target < 0 ∨ 2 ^ 63 ≤ target → ∃ e, there = .error e)

/-- A seek gives its target, or an error where that is out of range, and no sum on the way to it
overflows. -/
def SeekExact (f : File) (position : SeekFrom) (size : UInt64) : Prop :=
  ∀ (waits : Nat) (reply : Attrs), reply.attrs.size = some size →
    (∃ there, (f.complete (.ok (.attrs reply)) waits (.seek position)).1 =
        (Poll.ready there).map .sought ∧ Gives there (position.target f.pos size)) ∧
      ∀ a b, f.seekAdds (.ok (.attrs reply)) position = some (a, b) → ¬ Overflows a b

/-- The target is on the side of `2 ^ 63` that it is counted from, and is itself a `u64`. -/
def SeekFrom.Near (pos size : UInt64) : SeekFrom → Prop
  | .start _ => True
  | .current offset => pos.toNat + offset.toInt < 2 ^ 63
  | .end offset =>
      if size.toNat < 2 ^ 63 then size.toNat + offset.toInt < 2 ^ 63
      else 2 ^ 63 ≤ size.toNat + offset.toInt ∧ size.toNat + offset.toInt < 2 ^ 64

/-! ## Machine words -/

theorem toInt64_toInt (n : UInt64) :
    n.toInt64.toInt = if n.toNat < 2 ^ 63 then (n.toNat : Int) else n.toNat - 2 ^ 64 := by
  split
  · exact toInt_toInt64 ‹_›
  · have small := n.toNat_lt
    rw [Int64.toInt, UInt64.toBitVec_toInt64, BitVec.toInt_eq_toNat_cond, UInt64.toNat_toBitVec,
      if_neg (by omega)]
    rfl

theorem toInt_add_of_fits {a b : Int64} (fits : ¬ Overflows a b) :
    (a + b).toInt = a.toInt + b.toInt := by
  rw [Overflows, not_or, not_lt, not_le] at fits
  rw [Int64.toInt_add]
  exact Int.bmod_eq_of_le (by omega) (by omega)

section
variable {newPos : Int64} {target : Int}

theorem gives_error (negative : newPos.toInt < 0) (out : target < 0 ∨ 2 ^ 63 ≤ target) :
    Gives (File.seekTo newPos) target := by
  have before : newPos < 0 := by
    rw [Int64.lt_iff_toInt_lt, Int64.toInt_zero]
    exact negative
  refine ⟨fun _ _ => by omega, fun _ => ⟨"cannot move file pointer before the beginning", ?_⟩⟩
  rw [File.seekTo, if_pos before]

theorem gives_same (same : newPos.toInt = target) : Gives (File.seekTo newPos) target := by
  by_cases negative : target < 0
  · exact gives_error (same ▸ negative) (.inl negative)
  · have high := newPos.toInt_lt
    obtain ⟨pos, there, value⟩ := File.seekTo_of_toInt (not_lt.mp negative) same
    refine ⟨fun _ _ => ?_, fun out => by omega⟩
    rw [there, ← value, Int.toNat_natCast, UInt64.ofNat_toNat]

/-- What is given is no error, so that it is not out of range. -/
theorem not_gives (nonneg : 0 ≤ newPos.toInt) (out : target < 0 ∨ 2 ^ 63 ≤ target) :
    ¬ Gives (File.seekTo newPos) target := by
  rintro ⟨_, fails⟩
  obtain ⟨e, failed⟩ := fails out
  obtain ⟨pos, there, _⟩ := File.seekTo_of_toInt nonneg rfl
  rw [there] at failed
  cases failed

end

section
variable {a b : Int64} {n : UInt64}

/-- A sum from below `2 ^ 63` is exact just when it stays there. -/
theorem sum_exact_below (word : a.toInt = n.toNat) :
    Gives (File.seekTo (a + b)) (n.toNat + b.toInt) ∧ ¬ Overflows a b ↔
      n.toNat + b.toInt < 2 ^ 63 := by
  have low := b.le_toInt
  constructor
  · rintro ⟨_, fits⟩
    rw [Overflows, word] at fits
    omega
  · intro near
    have fits : ¬ Overflows a b := by
      rw [Overflows, word]
      omega
    exact ⟨gives_same ((toInt_add_of_fits fits).trans (by rw [word])), fits⟩

/-- One from above counts as the negative number `n - 2 ^ 64`. -/
theorem sum_exact_above (word : a.toInt = n.toNat - 2 ^ 64) :
    Gives (File.seekTo (a + b)) (n.toNat + b.toInt) ∧ ¬ Overflows a b ↔
      2 ^ 63 ≤ n.toNat + b.toInt ∧ n.toNat + b.toInt < 2 ^ 64 := by
  have small := n.toNat_lt
  have high := b.toInt_lt
  constructor
  · rintro ⟨gives, fits⟩
    have sum := toInt_add_of_fits fits
    rw [Overflows, word] at fits
    refine ⟨by omega, ?_⟩
    by_contra far
    exact not_gives (by omega) (.inr (by omega)) gives
  · rintro ⟨above, near⟩
    have fits : ¬ Overflows a b := by
      rw [Overflows, word]
      omega
    have sum := toInt_add_of_fits fits
    exact ⟨gives_error (by omega) (.inr above), fits⟩

end

/-! ## The seek -/

section
variable {f : File} {size : UInt64}

/-- The sum of a seek decides whether it is exact. -/
theorem seekExact_iff_sum (idle : f.state.fSeek = none) {position : SeekFrom} {a b : Int64}
    (adds : ∀ reply : Attrs, reply.attrs.size = some size →
      f.seekAdds (.ok (.attrs reply)) position = some (a, b) ∧
        f.seekResult (.ok (.attrs reply)) position = File.seekTo (a + b)) :
    SeekExact f position size ↔
      Gives (File.seekTo (a + b)) (position.target f.pos size) ∧ ¬ Overflows a b := by
  constructor
  · intro exact
    obtain ⟨⟨there, done, gives⟩, sums⟩ :=
      exact 0 ⟨0, { FileAttributes.empty with size := some size }⟩ rfl
    obtain ⟨sum, result⟩ := adds ⟨0, { FileAttributes.empty with size := some size }⟩ rfl
    rw [f.complete_seek idle, result] at done
    have same : File.seekTo (a + b) = there := by
      cases sought : File.seekTo (a + b) <;> cases there <;> rw [sought] at done <;> cases done <;>
        rfl
    exact ⟨same ▸ gives, sums a b sum⟩
  · rintro ⟨gives, fits⟩ waits reply known
    obtain ⟨sum, result⟩ := adds reply known
    refine ⟨⟨File.seekTo (a + b), ?_, gives⟩, ?_⟩
    · rw [f.complete_seek idle, result]
    · rintro a' b' sum'
      rw [sum] at sum'
      cases sum'
      exact fits

end

/-- A seek of a file below `2 ^ 63` is exact, whatever size the server tells, just when its target
is near. -/
theorem seek_exact_iff (f : File) (idle : f.state.fSeek = none) (below : f.pos.toNat < 2 ^ 63)
    (position : SeekFrom) (size : UInt64) :
    SeekExact f position size ↔ position.Near f.pos size := by
  cases position with
  | start target =>
      refine iff_of_true (fun waits reply _ => ⟨⟨File.seekTo target.toInt64, ?_, ?_⟩, ?_⟩) trivial
      · rw [f.complete_seek idle]
        rfl
      · have word := toInt64_toInt target
        have small := target.toNat_lt
        split at word
        · exact gives_same word
        · exact gives_error (by omega) (.inr (by rw [SeekFrom.target]; omega))
      · intro a b sum
        cases sum
  | current offset =>
      have word := toInt64_toInt f.pos
      rw [if_pos below] at word
      rw [seekExact_iff_sum (a := f.pos.toInt64) (b := offset) idle fun reply _ => ⟨rfl, rfl⟩]
      exact sum_exact_below word
  | «end» offset =>
      have word := toInt64_toInt size
      rw [seekExact_iff_sum (a := size.toInt64) (b := offset) idle, SeekFrom.Near]
      · by_cases lower : size.toNat < 2 ^ 63
        · rw [if_pos lower] at word ⊢
          exact sum_exact_below word
        · rw [if_neg lower] at word ⊢
          exact sum_exact_above word
      · intro reply known
        have result : (Except.ok (Packet.attrs reply) : SftpResult Packet).bind
            (intoWithStatus attrs?) = .ok reply := rfl
        constructor
        · rw [File.seekAdds, result]
          simp only [known, Option.map_some]
        · rw [File.seekResult, result]
          simp only [File.seekFromEnd, known]

/-- Back from the end of a file of ten bytes. -/
theorem seek_exact_iff_back : SeekExact (File.new "h" (.negotiated false none)) (.end (-4)) 10 :=
  (seek_exact_iff (File.new "h" (.negotiated false none)) rfl (by decide) (.end (-4)) 10).mpr
    (by rw [SeekFrom.Near, if_pos (by decide)]; decide)

/-- A server says that a file has `2 ^ 64 - 1` bytes: the position one beyond its end comes out as
the start of the file.  And from position 1 no `i64` is the sum with the largest offset. -/
theorem seek_wraps :
    ((File.new "h" (.negotiated false none)).complete
        (.ok (.attrs ⟨1, { FileAttributes.empty with size := some 18446744073709551615 }⟩)) 0
        (.seek (.end 1))).1 = .ready (.ok (.sought 0)) ∧
      SeekFrom.target 0 18446744073709551615 (.end 1) = 18446744073709551616 ∧
      ¬ SeekExact (File.new "h" (.negotiated false none)) (.end 1) 18446744073709551615 ∧
      ¬ SeekExact { File.new "h" (.negotiated false none) with pos := 1 }
        (.current 9223372036854775807) 0 := by
  have done : ((File.new "h" (.negotiated false none)).complete
      (.ok (.attrs ⟨1, { FileAttributes.empty with size := some 18446744073709551615 }⟩)) 0
      (.seek (.end 1))).1 = .ready (.ok (.sought 0)) := rfl
  refine ⟨done, rfl, fun exact => ?_, fun exact => ?_⟩
  · obtain ⟨⟨there, result, _, fails⟩, _⟩ :=
      exact 0 ⟨1, { FileAttributes.empty with size := some 18446744073709551615 }⟩ rfl
    obtain ⟨e, rfl⟩ := fails (.inr (by decide))
    rw [done] at result
    cases result
  · obtain ⟨_, sums⟩ := exact 0 ⟨1, { FileAttributes.empty with size := some 0 }⟩ rfl
    exact sums 1 9223372036854775807 rfl (.inr (by decide))

end RusshSftp.Client
