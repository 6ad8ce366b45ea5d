import RusshSftp.Lib.BigEndian

/-!
# Length-prefixed frames

A byte stream is a run of frames, each a big-endian length word and that many
bytes, and then a rest that does not hold a whole frame.  Every byte list splits
in this way, and in one way only.
-/

set_option autoImplicit false

namespace Framing

open BigEndian

def frame (width : Nat) (body : List UInt8) : List UInt8 := beBytes width body.length ++ body

/-- The length word is cut, or the body is. -/
def Incomplete (width : Nat) (rest : List UInt8) : Prop :=
  rest.length < width ∨ rest.length < width + beNat (rest.take width)

structure Splits (width : Nat) (input : List UInt8) (bodies : List (List UInt8))
    (rest : List UInt8) : Prop where
  whole : input = bodies.flatMap (frame width) ++ rest
  fits : ∀ body ∈ bodies, body.length < 256 ^ width
  incomplete : Incomplete width rest

theorem take_frame (width : Nat) (body rest : List UInt8) :
    (frame width body ++ rest).take width = beBytes width body.length := by
  rw [frame, List.append_assoc]
  exact List.take_left' (beBytes_length _ _)

theorem not_incomplete_frame (width : Nat) (body rest : List UInt8)
    (fits : body.length < 256 ^ width) : ¬ Incomplete width (frame width body ++ rest) := by
  have len : (frame width body ++ rest).length = width + body.length + rest.length := by
    simp [frame, Nat.add_assoc]
  rw [Incomplete, take_frame, beNat_beBytes_of_lt fits, len]
  omega

theorem frame_append_inj {width : Nat} {left right restLeft restRight : List UInt8}
    (fitsLeft : left.length < 256 ^ width) (fitsRight : right.length < 256 ^ width)
    (same : frame width left ++ restLeft = frame width right ++ restRight) :
    left = right ∧ restLeft = restRight := by
  have words := congrArg (List.take width) same
  rw [take_frame, take_frame] at words
  have lengths := congrArg beNat words
  rw [beNat_beBytes_of_lt fitsLeft, beNat_beBytes_of_lt fitsRight] at lengths
  rw [frame, frame, words, List.append_assoc, List.append_assoc] at same
  exact List.append_inj (List.append_cancel_left same) lengths

theorem Splits.unique {width : Nat} {input : List UInt8} {bodies bodies' : List (List UInt8)}
    {rest rest' : List UInt8} (one : Splits width input bodies rest)
    (other : Splits width input bodies' rest') : bodies = bodies' ∧ rest = rest' := by
  induction bodies generalizing input bodies' with
  | nil =>
      cases bodies' with
      | nil =>
          have whole := one.whole.symm.trans other.whole
          rw [List.flatMap_nil, List.nil_append, List.nil_append] at whole
          exact ⟨rfl, whole⟩
      | cons body tail =>
          have whole := one.whole.symm.trans other.whole
          rw [List.flatMap_nil, List.nil_append, List.flatMap_cons, List.append_assoc] at whole
          have incomplete := one.incomplete
          rw [whole] at incomplete
          exact absurd incomplete
            (not_incomplete_frame _ _ _ (other.fits body (List.mem_cons_self ..)))
  | cons body tail ih =>
      cases bodies' with
      | nil =>
          have whole := other.whole.symm.trans one.whole
          rw [List.flatMap_nil, List.nil_append, List.flatMap_cons, List.append_assoc] at whole
          have incomplete := other.incomplete
          rw [whole] at incomplete
          exact absurd incomplete
            (not_incomplete_frame _ _ _ (one.fits body (List.mem_cons_self ..)))
      | cons body' tail' =>
          have whole := one.whole.symm.trans other.whole
          rw [List.flatMap_cons, List.flatMap_cons, List.append_assoc, List.append_assoc] at whole
          obtain ⟨sameBody, sameTail⟩ := frame_append_inj
            (one.fits body (List.mem_cons_self ..)) (other.fits body' (List.mem_cons_self ..)) whole
          have one' : Splits width (tail.flatMap (frame width) ++ rest) tail rest :=
            ⟨rfl, fun b member => one.fits b (List.mem_cons_of_mem _ member), one.incomplete⟩
          obtain ⟨rfl, rfl⟩ := ih one'
            ⟨sameTail, fun b member => other.fits b (List.mem_cons_of_mem _ member),
              other.incomplete⟩
          exact ⟨by rw [sameBody], rfl⟩

theorem Splits.cons {width : Nat} {input body rest : List UInt8} {bodies : List (List UInt8)}
    (split : Splits width input bodies rest) (fits : body.length < 256 ^ width) :
    Splits width (frame width body ++ input) (body :: bodies) rest where
  whole := by rw [List.flatMap_cons, List.append_assoc, ← split.whole]
  fits := by
    intro other member
    rcases List.mem_cons.mp member with rfl | member
    · exact fits
    · exact split.fits other member
  incomplete := split.incomplete

/-- A list that is not incomplete starts with a frame. -/
theorem exists_frame {width : Nat} {input : List UInt8} (complete : ¬ Incomplete width input) :
    ∃ body rest, input = frame width body ++ rest ∧ body.length < 256 ^ width := by
  rw [Incomplete, not_or, not_lt, not_lt] at complete
  obtain ⟨word, enough⟩ := complete
  have taken : (input.take width).length = width := by
    rw [List.length_take]
    omega
  refine ⟨(input.drop width).take (beNat (input.take width)),
    (input.drop width).drop (beNat (input.take width)), ?_, ?_⟩
  · have bodyLength : ((input.drop width).take (beNat (input.take width))).length =
        beNat (input.take width) := by
      rw [List.length_take, List.length_drop]
      omega
    have lengthWord := beBytes_beNat (input.take width)
    rw [taken] at lengthWord
    rw [frame, bodyLength, lengthWord, List.append_assoc, List.take_append_drop,
      List.take_append_drop]
  · have bound := beNat_lt (input.take width)
    rw [taken] at bound
    rw [List.length_take]
    exact lt_of_le_of_lt (min_le_left _ _) bound

theorem exists_splits {width : Nat} (positive : 0 < width) (input : List UInt8) :
    ∃ bodies rest, Splits width input bodies rest := by
  induction length : input.length using Nat.strong_induction_on generalizing input with
  | h n ih =>
      by_cases incomplete : Incomplete width input
      · exact ⟨[], input, rfl, (by intro body member; cases member), incomplete⟩
      · obtain ⟨body, rest, rfl, fits⟩ := exists_frame incomplete
        obtain ⟨bodies, last, split⟩ := ih rest.length
          (by rw [← length, List.length_append, frame, List.length_append, beBytes_length]; omega)
          rest rfl
        exact ⟨body :: bodies, last, split.cons fits⟩

end Framing
