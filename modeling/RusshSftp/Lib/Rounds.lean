import Mathlib

/-!
# A loop of rounds

Each round of a loop takes a state to the next and tells whether the loop ends with it.  A
loop that has no bound of its own is run with fuel; it ends if some fuel is enough.  Where
an invariant decides what the rounds tell, the loop ends just when one of them has to end it.
-/

set_option autoImplicit false

namespace Rounds

variable {S : Type} {round : S → Bool × S}

/-- At most `fuel` rounds; the flag tells whether the loop has ended. -/
def run (round : S → Bool × S) : Nat → S → Bool × S
  | 0, s => (false, s)
  | fuel + 1, s =>
      match round s with
      | (true, s) => (true, s)
      | (false, s) => run round fuel s

def Ends (round : S → Bool × S) (s : S) : Prop := ∃ fuel, (run round fuel s).1 = true

theorem run_last {s : S} (last : (round s).1 = true) (fuel : Nat) :
    run round (fuel + 1) s = round s := by
  rcases told : round s with ⟨ended, next⟩
  rw [told] at last
  cases last
  rw [run, told]

theorem run_on {s : S} (on : (round s).1 = false) (fuel : Nat) :
    run round (fuel + 1) s = run round fuel (round s).2 := by
  rcases told : round s with ⟨ended, next⟩
  rw [told] at on
  cases on
  rw [run, told]

theorem Ends.of_last {s : S} (last : (round s).1 = true) : Ends round s :=
  ⟨1, by rw [run_last last, last]⟩

theorem ends_iff_next {s : S} (on : (round s).1 = false) :
    Ends round s ↔ Ends round (round s).2 := by
  constructor
  · rintro ⟨fuel, ended⟩
    cases fuel with
    | zero => cases ended
    | succ fuel =>
        rw [run_on on] at ended
        exact ⟨fuel, ended⟩
  · rintro ⟨fuel, ended⟩
    exact ⟨fuel + 1, by rw [run_on on, ended]⟩

section
variable {I : Nat → S → Prop} {last : Nat → Prop}

/-- `I i` holds of the state before round `i`, and decides whether the loop ends with that round. -/
theorem ends_iff (told : ∀ i s, I i s → ((round s).1 = true ↔ last i))
    (kept : ∀ i s, I i s → (round s).1 = false → I (i + 1) (round s).2) {i : Nat} {s : S}
    (start : I i s) : Ends round s ↔ ∃ j, i ≤ j ∧ last j := by
  constructor
  · rintro ⟨fuel, ended⟩
    induction fuel generalizing i s with
    | zero => cases ended
    | succ fuel ih =>
        cases here : (round s).1 with
        | true => exact ⟨i, le_refl i, (told i s start).mp here⟩
        | false =>
            rw [run_on here] at ended
            obtain ⟨j, later, isLast⟩ := ih (kept i s start here) ended
            exact ⟨j, by omega, isLast⟩
  · rintro ⟨j, later, isLast⟩
    -- the rounds that are left before round `j`
    induction left : j - i generalizing i s with
    | zero =>
        obtain rfl : j = i := by omega
        exact .of_last ((told j s start).mpr isLast)
    | succ left ih =>
        cases here : (round s).1 with
        | true => exact .of_last here
        | false => exact (ends_iff_next here).mpr (ih (kept i s start here) (by omega) (by omega))

end

end Rounds
