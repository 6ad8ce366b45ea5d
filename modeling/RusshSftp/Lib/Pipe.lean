import RusshSftp.Lib.Framing

/-!
# A byte pipe and the frames in it

A pipe takes bytes at one end and gives them, in their order and cut anywhere, at the other.
It can be closed, and it can be torn down with what it has not carried yet.  `Holds` says which
frames are in it; the operations put a frame at the end of them or take their first.
-/

set_option autoImplicit false

namespace Framing

/-- What has been carried and waits to be read, and what is still on its way. -/
structure Pipe where
  arrived : List UInt8
  transit : List UInt8
  closed : Bool
  /-- Some bytes that were sent will not come. -/
  lost : Bool
  sound : closed = false → lost = false
deriving DecidableEq

instance (width : Nat) (rest : List UInt8) : Decidable (Incomplete width rest) :=
  inferInstanceAs (Decidable (_ ∨ _))

/-- A frame begins with its length word. -/
theorem frame_ne_nil {width : Nat} (positive : 0 < width) (body : List UInt8) :
    frame width body ≠ [] := by
  intro none
  have len := congrArg List.length none
  rw [frame, List.length_append, BigEndian.beBytes_length, List.length_nil] at len
  omega

namespace Pipe

def new : Pipe := ⟨[], [], false, false, fun _ => rfl⟩

/-- A closed pipe takes nothing. -/
def send (bytes : List UInt8) (p : Pipe) : Pipe :=
  if closed : p.closed then
    { p with
      lost := p.lost || !bytes.isEmpty
      sound := fun opened => by rw [closed] at opened; cases opened }
  else { p with transit := p.transit ++ bytes }

def carry (n : Nat) (p : Pipe) : Pipe :=
  { p with arrived := p.arrived ++ p.transit.take n, transit := p.transit.drop n }

def close (p : Pipe) : Pipe :=
  { p with closed := true, sound := fun opened => by cases opened }

/-- What is on its way is lost. -/
def hangUp (p : Pipe) : Pipe where
  arrived := p.arrived
  transit := []
  closed := true
  lost := true
  sound opened := by cases opened

def content (p : Pipe) : List UInt8 := p.arrived ++ p.transit

@[simp] theorem send_closed (bytes : List UInt8) (p : Pipe) : (p.send bytes).closed = p.closed := by
  rw [send]
  split <;> rfl

theorem send_lost (bytes : List UInt8) {p : Pipe} (opened : p.closed = false) :
    (p.send bytes).lost = p.lost := by
  rw [send, dif_neg (by simp [opened])]

/-- Nothing more will come, and what has come is no whole frame. -/
def Ended (width : Nat) (p : Pipe) : Prop :=
  p.closed = true ∧ p.transit = [] ∧ Incomplete width p.arrived

instance (width : Nat) (p : Pipe) : Decidable (p.Ended width) :=
  inferInstanceAs (Decidable (_ ∧ _ ∧ _))

/-- The frames in a pipe: all of their bytes are in it, or the first and the others are lost. -/
structure Holds (width : Nat) (p : Pipe) (bodies : List (List UInt8)) : Prop where
  front : p.content <+: bodies.flatMap (frame width)
  whole : p.lost = false → p.content = bodies.flatMap (frame width)
  fits : ∀ body ∈ bodies, body.length < 256 ^ width

namespace Holds

variable {width : Nat} {p : Pipe} {bodies : List (List UInt8)}

theorem new : Holds width Pipe.new [] :=
  ⟨List.prefix_rfl, fun _ => rfl, fun body member => by cases member⟩

/-- A frame that was sent is in the pipe, or what was in it before is all that will be. -/
theorem send (holds : Holds width p bodies) {body : List UInt8}
    (fits : body.length < 256 ^ width) (positive : 0 < width) :
    Holds width (p.send (frame width body)) (bodies ++ [body]) := by
  have all : ∀ other ∈ bodies ++ [body], other.length < 256 ^ width := by
    intro other member
    rcases List.mem_append.mp member with earlier | now
    · exact holds.fits other earlier
    · rw [List.mem_singleton.mp now]
      exact fits
  rw [Pipe.send]
  by_cases closed : p.closed = true
  · rw [dif_pos closed]
    refine ⟨?_, fun found => ?_, all⟩
    · rw [List.flatMap_append]
      exact holds.front.trans (List.prefix_append _ _)
    · simp [frame_ne_nil positive] at found
  · rw [dif_neg closed]
    have content : p.arrived ++ (p.transit ++ frame width body) =
        (bodies ++ [body]).flatMap (frame width) := by
      rw [← List.append_assoc, List.flatMap_append, List.flatMap_singleton]
      exact congrArg (· ++ frame width body)
        (holds.whole (p.sound (Bool.eq_false_of_not_eq_true closed)))
    exact ⟨content ▸ List.prefix_rfl, fun _ => content, all⟩

theorem of_content {q : Pipe} (holds : Holds width p bodies) (same : q.content = p.content)
    (lost : q.lost = false → p.lost = false) : Holds width q bodies :=
  ⟨same ▸ holds.front, fun found => same ▸ holds.whole (lost found), holds.fits⟩

/-- Nothing is lost of no bytes. -/
theorem send_nil (holds : Holds width p bodies) : Holds width (p.send []) bodies := by
  rw [Pipe.send]
  split
  · exact holds.of_content rfl fun found => by simpa using found
  · refine holds.of_content ?_ fun found => found
    rw [content, List.append_nil]
    rfl

/-- A pipe with frames that has lost nothing and has carried all its bytes has a whole one at
hand. -/
theorem eq_nil (holds : Holds width p bodies) (found : p.lost = false) (carried : p.transit = [])
    (incomplete : Incomplete width p.arrived) : bodies = [] := by
  cases bodies with
  | nil => rfl
  | cons first later =>
      have whole := holds.whole found
      rw [content, carried, List.append_nil, List.flatMap_cons] at whole
      rw [whole] at incomplete
      exact absurd incomplete (not_incomplete_frame _ _ _ (holds.fits first (by simp)))

/-- A pipe at its end loses what is no frame. -/
theorem drain (holds : Holds width p bodies) (ended : p.Ended width) :
    Holds width { p with arrived := [] } bodies where
  front := by
    rw [content, ended.2.1]
    exact List.nil_prefix
  whole found := by
    rw [content, ended.2.1, holds.eq_nil found ended.2.1 ended.2.2]
    rfl
  fits := holds.fits

theorem carry (holds : Holds width p bodies) (n : Nat) : Holds width (p.carry n) bodies := by
  refine holds.of_content ?_ fun found => found
  rw [content, Pipe.carry, List.append_assoc, List.take_append_drop]
  rfl

theorem close (holds : Holds width p bodies) : Holds width p.close bodies :=
  holds.of_content rfl fun found => found

theorem hangUp (holds : Holds width p bodies) : Holds width p.hangUp bodies := by
  refine ⟨?_, (fun found => by cases found), holds.fits⟩
  rw [content, Pipe.hangUp, List.append_nil]
  exact (List.prefix_append _ _).trans holds.front

/-- A whole frame that has arrived is the first. -/
theorem take (holds : Holds width p bodies) {body rest : List UInt8}
    (arrived : p.arrived = frame width body ++ rest) (fits : body.length < 256 ^ width)
    (positive : 0 < width) :
    ∃ later, bodies = body :: later ∧ Holds width { p with arrived := rest } later := by
  have front := holds.front
  rw [content, arrived] at front
  cases bodies with
  | nil =>
      have none := congrArg List.length (List.prefix_nil.mp front)
      rw [List.length_append, List.length_append, frame, List.length_append,
        BigEndian.beBytes_length, List.length_nil] at none
      omega
  | cons first later =>
      obtain ⟨lost, all⟩ := front
      rw [List.flatMap_cons, List.append_assoc, List.append_assoc] at all
      obtain ⟨same, others⟩ := frame_append_inj fits (holds.fits first (by simp)) all
      subst same
      refine ⟨later, rfl, ?_, ?_, fun other member => holds.fits other (by simp [member])⟩
      · exact ⟨lost, by rw [content, ← others, List.append_assoc]⟩
      · intro found
        have whole := holds.whole found
        rw [content, arrived, List.append_assoc, List.flatMap_cons] at whole
        exact List.append_cancel_left whole

end Holds

end Pipe

end Framing
