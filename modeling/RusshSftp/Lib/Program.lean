import Mathlib.Logic.Basic

/-!
# Programs that call a service

A `Program` makes calls one after the other, and chooses each by the answers to those before it.
A service with a state of its own answers them; it may also leave one without an answer.  A program
whose calls are programs of a lower layer is itself a program of that layer.
-/

set_option autoImplicit false

inductive Program (Call : Type) (Reply : Call → Type) (α : Type) where
  | done (value : α)
  | call (c : Call) (next : Reply c → Program Call Reply α)

namespace Program

variable {Call Lower : Type} {Reply : Call → Type} {Answer : Lower → Type}
variable {α β ε σ τ : Type}

def bind : Program Call Reply α → (α → Program Call Reply β) → Program Call Reply β
  | .done value, f => f value
  | .call c next, f => .call c fun reply => (next reply).bind f

instance : Monad (Program Call Reply) where
  pure := .done
  bind := bind

theorem bind_done (p : Program Call Reply α) : p.bind .done = p := by
  induction p with
  | done value => rfl
  | call c next ih =>
      rw [bind]
      congr 1
      funext reply
      exact ih reply

theorem bind_assoc {γ : Type} (p : Program Call Reply α) (f : α → Program Call Reply β)
    (g : β → Program Call Reply γ) : (p.bind f).bind g = p.bind fun a => (f a).bind g := by
  induction p with
  | done value => rfl
  | call c next ih =>
      simp only [bind]
      congr 1
      funext reply
      exact ih reply

instance : LawfulMonad (Program Call Reply) :=
  LawfulMonad.mk' _ bind_done (fun _ _ => rfl) bind_assoc

/-- A single call. -/
def perform (c : Call) : Program Call Reply (Reply c) := .call c .done

/-! ## Running a program -/

/-- A run against a service that answers every call. -/
def run (serve : (c : Call) → σ → Reply c × σ) : Program Call Reply α → σ → α × σ
  | .done value, s => (value, s)
  | .call c next, s => (next (serve c s).1).run serve (serve c s).2

/-- A run against a service that may leave a call without an answer. -/
def attempt (serve : (c : Call) → σ → Option (Reply c × σ)) :
    Program Call Reply α → σ → Option (α × σ)
  | .done value, s => some (value, s)
  | .call c next, s =>
      match serve c s with
      | some (reply, s) => (next reply).attempt serve s
      | none => none

/-- Every call of the run satisfies `P` in the state in which it is made. -/
def Meets (P : Call → σ → Prop) (serve : (c : Call) → σ → Reply c × σ) :
    Program Call Reply α → σ → Prop
  | .done _, _ => True
  | .call c next, s => P c s ∧ (next (serve c s).1).Meets P serve (serve c s).2

instance Meets.decidable {P : Call → σ → Prop} [each : ∀ c s, Decidable (P c s)]
    {serve : (c : Call) → σ → Reply c × σ} :
    (p : Program Call Reply α) → (s : σ) → Decidable (p.Meets P serve s)
  | .done _, _ => inferInstanceAs (Decidable True)
  | .call c next, s =>
      have : Decidable ((next (serve c s).1).Meets P serve (serve c s).2) :=
        decidable (next (serve c s).1) (serve c s).2
      inferInstanceAs (Decidable (P c s ∧ (next (serve c s).1).Meets P serve (serve c s).2))

/-- The calls are programs of a lower layer. -/
def lower (methods : (c : Call) → Program Lower Answer (Reply c)) :
    Program Call Reply α → Program Lower Answer α
  | .done value => .done value
  | .call c next => (methods c).bind fun reply => (next reply).lower methods

/-- Somebody else makes one call while the program runs: after so many calls of the program's, or
never. -/
def beside (other : Call) : Option Nat → Program Call Reply α → Program Call Reply α
  | none, p => p
  | some 0, p => .call other fun _ => p
  | some (_ + 1), .done value => .done value
  | some (n + 1), .call c next => .call c fun reply => (next reply).beside other (some n)

section
variable {serve : (c : Call) → σ → Reply c × σ} {s : σ}

theorem run_bind (p : Program Call Reply α) (f : α → Program Call Reply β) :
    (p >>= f).run serve s = (f (p.run serve s).1).run serve (p.run serve s).2 := by
  induction p generalizing s with
  | done value => rfl
  | call c next ih => exact ih (serve c s).1

@[simp] theorem beside_none (other : Call) (p : Program Call Reply α) :
    p.beside other none = p := by
  cases p <;> rfl

@[simp] theorem beside_now (other : Call) (p : Program Call Reply α) :
    p.beside other (some 0) = .call other fun _ => p := by
  cases p <;> rfl

theorem run_beside_call {other c : Call} {next : Reply c → Program Call Reply α}
    {delay : Option Nat} (later : delay ≠ some 0) :
    ((Program.call c next).beside other delay).run serve s =
      ((next (serve c s).1).beside other (delay.map Nat.pred)).run serve (serve c s).2 := by
  match delay with
  | none =>
      rw [Option.map_none, beside_none, beside_none]
      rfl
  | some 0 => exact absurd rfl later
  | some (n + 1) => rfl

/-- What is only made of the result leaves the other call where it is. -/
theorem beside_map (other : Call) (delay : Option Nat) (p : Program Call Reply α) (f : α → β) :
    (p >>= fun a => .done (f a)).beside other delay =
      p.beside other delay >>= fun a => .done (f a) := by
  induction p generalizing delay with
  | done value =>
      match delay with
      | none => rfl
      | some 0 => rfl
      | some (n + 1) => rfl
  | call c next ih =>
      match delay with
      | none => rw [beside_none, beside_none]
      | some 0 => rw [beside_now, beside_now]; rfl
      | some (n + 1) => exact congrArg (Program.call c) (funext fun reply => ih reply (some n))

/-- What each call keeps, the whole run keeps. -/
theorem keeps {P : Call → σ → Prop} {I : σ → Prop}
    (step : ∀ c s, P c s → I s → I (serve c s).2) (p : Program Call Reply α)
    (meets : p.Meets P serve s) (holds : I s) : I (p.run serve s).2 := by
  induction p generalizing s with
  | done value => exact holds
  | call c next ih => exact ih (serve c s).1 meets.2 (step c s meets.1 holds)

end

/-- What a run looks like through a map of the states. -/
theorem run_map {serve : (c : Call) → σ → Reply c × σ} {serve' : (c : Call) → τ → Reply c × τ}
    {f : σ → τ} (same : ∀ c s, (serve' c (f s)) = ((serve c s).1, f (serve c s).2))
    (p : Program Call Reply α) (s : σ) :
    p.run serve' (f s) = ((p.run serve s).1, f (p.run serve s).2) := by
  induction p generalizing s with
  | done value => rfl
  | call c next ih =>
      rw [run, same]
      exact ih (serve c s).1 (serve c s).2

/-- Two services that give the same answers, along a relation of their states, cannot be told
apart by a program. -/
theorem simulates {serve : (c : Call) → σ → Reply c × σ}
    {serve' : (c : Call) → τ → Option (Reply c × τ)} {P : Call → σ → Prop} {R : σ → τ → Prop}
    (follows : ∀ c s t, P c s → R s t →
      ∃ t', serve' c t = some ((serve c s).1, t') ∧ R (serve c s).2 t')
    (p : Program Call Reply α) {s : σ} {t : τ} (meets : p.Meets P serve s) (related : R s t) :
    ∃ t', p.attempt serve' t = some ((p.run serve s).1, t') ∧ R (p.run serve s).2 t' := by
  induction p generalizing s t with
  | done value => exact ⟨t, rfl, related⟩
  | call c next ih =>
      obtain ⟨t', answered, related'⟩ := follows c s t meets.1 related
      rw [attempt, answered]
      exact ih (serve c s).1 meets.2 related'

/-! ## The calls that a program may make -/

/-- Whatever the answers are, every call satisfies `P`. -/
def Only (P : Call → Prop) : Program Call Reply α → Prop
  | .done _ => True
  | .call c next => P c ∧ ∀ reply, (next reply).Only P

namespace Only
variable {P : Call → Prop}

theorem perform {c : Call} (permitted : P c) : (perform c : Program Call Reply _).Only P :=
  ⟨permitted, fun _ => trivial⟩

theorem bind {p : Program Call Reply α} {f : α → Program Call Reply β} (first : p.Only P)
    (rest : ∀ a, (f a).Only P) : (p >>= f).Only P := by
  induction p with
  | done value => exact rest value
  | call c next ih => exact ⟨first.1, fun reply => ih reply (first.2 reply)⟩

theorem lower {p : Program Call Reply α} {methods : (c : Call) → Program Lower Answer (Reply c)}
    {Q : Lower → Prop} (each : ∀ c, (methods c).Only Q) : (p.lower methods).Only Q := by
  induction p with
  | done value => exact trivial
  | call c next ih => exact (each c).bind ih

theorem meets {serve : (c : Call) → σ → Reply c × σ} {Q : Call → σ → Prop}
    (implies : ∀ c s, P c → Q c s) {p : Program Call Reply α} (only : p.Only P) (s : σ) :
    p.Meets Q serve s := by
  induction p generalizing s with
  | done value => exact trivial
  | call c next ih => exact ⟨implies c s only.1, ih _ (only.2 _) _⟩

end Only

/-! ## Programs that may fail -/

/-- `?` after a program: an error ends what comes after it. -/
theorem run_except_bind {serve : (c : Call) → σ → Reply c × σ} {s : σ}
    (p : ExceptT ε (Program Call Reply) α) (f : α → ExceptT ε (Program Call Reply) β) :
    (p >>= f).run.run serve s =
      match p.run.run serve s with
      | (.ok a, s) => (f a).run.run serve s
      | (.error err, s) => (.error err, s) := by
  rw [ExceptT.run_bind, run_bind]
  rcases p.run.run serve s with ⟨_ | _, _⟩ <;> rfl

theorem Only.except_bind {P : Call → Prop} {p : ExceptT ε (Program Call Reply) α}
    {f : α → ExceptT ε (Program Call Reply) β} (first : p.run.Only P)
    (rest : ∀ a, (f a).run.Only P) : (p >>= f).run.Only P := by
  rw [ExceptT.run_bind]
  refine first.bind ?_
  rintro (err | a)
  · exact trivial
  · exact rest a

end Program
