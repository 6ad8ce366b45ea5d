import Mathlib

/-!
# Runs of a partial labelled step

A step function takes a state and an action to the next state, or refuses.  A run
is a list of actions taken one after the other.  Facts about runs come from facts about
one step by the rules below; `exec_induction` also gives the actions so far, so that
a fact may speak of the past.
-/

set_option autoImplicit false

namespace Run

section
variable {σ α : Type} (step : σ → α → Option σ)

/-- The state after a list of actions, if each of them is accepted. -/
def exec : σ → List α → Option σ
  | s, [] => some s
  | s, a :: rest =>
      match step s a with
      | some next => exec next rest
      | none => none

/-- Every state of the run satisfies `Q`, its first and its last included. -/
def Along (Q : σ → Prop) (start : σ) (actions : List α) : Prop :=
  ∀ before after s, actions = before ++ after → exec step start before = some s → Q s

/-- Every action of the run satisfies `C` in the state it is taken in. -/
def Meets (C : σ → α → Prop) (start : σ) (actions : List α) : Prop :=
  ∀ before a after s, actions = before ++ a :: after → exec step start before = some s → C s a

/-- The run takes action `a` from `s` to `s'`. -/
def Takes (start : σ) (actions : List α) (s : σ) (a : α) (s' : σ) : Prop :=
  ∃ before after, actions = before ++ a :: after ∧ exec step start before = some s ∧
    step s a = some s'

theorem exec_append (start : σ) (first second : List α) :
    exec step start (first ++ second) =
      (exec step start first).bind fun s => exec step s second := by
  induction first generalizing start with
  | nil => rfl
  | cons a rest ih =>
      rw [List.cons_append, exec, exec]
      cases step start a with
      | none => rfl
      | some next => exact ih next

variable {step}

theorem exec_snoc {start s s' : σ} {actions : List α} {a : α}
    (run : exec step start actions = some s) (last : step s a = some s') :
    exec step start (actions ++ [a]) = some s' := by
  rw [exec_append, run, Option.bind_some, exec, last]
  rfl

theorem exec_snoc_inv {start s' : σ} {actions : List α} {a : α}
    (run : exec step start (actions ++ [a]) = some s') :
    ∃ s, exec step start actions = some s ∧ step s a = some s' := by
  rw [exec_append, Option.bind_eq_some_iff] at run
  obtain ⟨s, first, last⟩ := run
  refine ⟨s, first, ?_⟩
  rw [exec] at last
  cases stepped : step s a with
  | none => rw [stepped] at last; cases last
  | some next => rw [stepped] at last; exact last

theorem exec_append_inv {start s' : σ} {first second : List α}
    (run : exec step start (first ++ second) = some s') :
    ∃ s, exec step start first = some s ∧ exec step s second = some s' := by
  rwa [exec_append, Option.bind_eq_some_iff] at run

/-- A part of the last state of a run, computed without the rest of it. -/
theorem exec_map {β : Type} {start s : σ} {actions : List α} {f : σ → β} {value : β}
    (run : exec step start actions = some s)
    (computed : (exec step start actions).map f = some value) : f s = value := by
  rw [run, Option.map_some] at computed
  exact Option.some.inj computed

/-- A run of a step function is a run of what another makes of its states. -/
theorem exec_project {τ : Type} {step' : τ → α → Option τ} {f : σ → τ}
    (follows : ∀ s a s', step s a = some s' → step' (f s) a = some (f s')) {start s : σ}
    {actions : List α} (run : exec step start actions = some s) :
    exec step' (f start) actions = some (f s) := by
  induction actions generalizing start with
  | nil =>
      cases run
      rfl
  | cons a rest ih =>
      rw [exec] at run
      cases stepped : step start a with
      | none => rw [stepped] at run; cases run
      | some next =>
          rw [stepped] at run
          rw [exec, follows start a next stepped]
          exact ih run

/-- Induction over a run, from its end, with the actions so far at hand. -/
theorem exec_induction {start : σ} {P : List α → σ → Prop} (nil : P [] start)
    (snoc : ∀ actions s a s', exec step start actions = some s → P actions s →
      step s a = some s' → P (actions ++ [a]) s') :
    ∀ actions s, exec step start actions = some s → P actions s := by
  intro actions
  induction actions using List.reverseRecOn with
  | nil =>
      rintro s ⟨⟩
      exact nil
  | append_singleton actions a ih =>
      intro s' run
      obtain ⟨s, before, last⟩ := exec_snoc_inv run
      exact snoc actions s a s' before (ih s before) last

theorem Takes.stepped {start s s' : σ} {actions : List α} {a : α}
    (taken : Takes step start actions s a s') : step s a = some s' := by
  obtain ⟨_, _, _, _, stepped⟩ := taken
  exact stepped

theorem Along.takes {Q : σ → Prop} {start s s' : σ} {actions : List α} {a : α}
    (along : Along step Q start actions) (taken : Takes step start actions s a s') : Q s := by
  obtain ⟨before, after, shape, run, _⟩ := taken
  exact along before (a :: after) s shape run

theorem Along.taken {Q : σ → Prop} {start s s' : σ} {actions : List α} {a : α}
    (along : Along step Q start actions) (taken : Takes step start actions s a s') : Q s' := by
  obtain ⟨before, after, shape, run, last⟩ := taken
  exact along (before ++ [a]) after s' (by rw [shape]; simp) (exec_snoc run last)

/-- `Meets`, one action at a time. -/
theorem Meets.cons {C : σ → α → Prop} {start : σ} {a : α} {rest : List α} (first : C start a)
    (later : ∀ next, step start a = some next → Meets step C next rest) :
    Meets step C start (a :: rest) := by
  intro before b after s shape run
  cases before with
  | nil =>
      cases shape
      cases run
      exact first
  | cons c before =>
      cases shape
      rw [exec] at run
      cases stepped : step start a with
      | none => rw [stepped] at run; cases run
      | some next =>
          rw [stepped] at run
          exact later next stepped before b after s rfl run

/-- `Meets`, computed along the run. -/
def checks (step : σ → α → Option σ) (check : σ → α → Bool) : σ → List α → Bool
  | _, [] => true
  | s, a :: rest => check s a && (step s a).all fun next => checks step check next rest

theorem meets_of_checks {C : σ → α → Prop} {check : σ → α → Bool} {start : σ} {actions : List α}
    (sound : ∀ s a, check s a = true → C s a) (computed : checks step check start actions = true) :
    Meets step C start actions := by
  induction actions generalizing start with
  | nil =>
      intro before a after s shape
      simp at shape
  | cons a rest ih =>
      rw [checks, Bool.and_eq_true] at computed
      refine Meets.cons (sound start a computed.1) fun next taken => ih ?_
      rw [taken] at computed
      exact computed.2

/-- The same for a condition that is decidable, from the state that another run has come to. -/
theorem meets_of_decide {C : σ → α → Prop} [∀ s a, Decidable (C s a)] {start s : σ}
    {past actions : List α} (run : exec step start past = some s)
    (computed : (exec step start past).all
      (fun s => checks step (fun s a => decide (C s a)) s actions) = true) :
    Meets step C s actions := by
  rw [run, Option.all_some] at computed
  exact meets_of_checks (fun _ _ => of_decide_eq_true) computed

/-- Actions on which `C` asks nothing. -/
theorem meets_of_all {C : σ → α → Prop} {start : σ} {actions : List α}
    (free : ∀ a ∈ actions, ∀ s, C s a) : Meets step C start actions := by
  rintro before a after s rfl _
  exact free a (by simp) s

theorem Meets.append {C : σ → α → Prop} {start : σ} {first second : List α}
    (front : Meets step C start first)
    (back : ∀ s, exec step start first = some s → Meets step C s second) :
    Meets step C start (first ++ second) := by
  induction first generalizing start with
  | nil => exact back start rfl
  | cons a rest ih =>
      refine Meets.cons (front [] a rest start rfl rfl) fun next stepped => ih ?_ ?_
      · intro before b after s shape run
        exact front (a :: before) b after s (by rw [shape]; rfl) (by rw [exec, stepped]; exact run)
      · intro s run
        exact back s (by rw [exec, stepped]; exact run)

theorem Along.front {Q : σ → Prop} {start : σ} {first second : List α}
    (along : Along step Q start (first ++ second)) : Along step Q start first := by
  intro before after s shape run
  exact along before (after ++ second) s (by rw [shape, List.append_assoc]) run

theorem Along.last {Q : σ → Prop} {start s : σ} {actions : List α}
    (along : Along step Q start actions) (run : exec step start actions = some s) : Q s :=
  along actions [] s (List.append_nil _).symm run

theorem Along.snoc {Q : σ → Prop} {start s' : σ} {actions : List α} {a : α}
    (along : Along step Q start actions) (run : exec step start (actions ++ [a]) = some s')
    (last : Q s') : Along step Q start (actions ++ [a]) := by
  intro before after s shape early
  rcases List.eq_nil_or_concat after with rfl | ⟨after, final, rfl⟩
  · rw [List.append_nil] at shape
    rw [← shape, run] at early
    cases early
    exact last
  · rw [List.concat_eq_append, ← List.append_assoc] at shape
    exact along before after s (List.append_inj' shape rfl).1 early

theorem Meets.front {C : σ → α → Prop} {start : σ} {first second : List α}
    (meets : Meets step C start (first ++ second)) : Meets step C start first := by
  intro before a after s shape run
  exact meets before a (after ++ second) s
    (by rw [shape, List.append_assoc, List.cons_append]) run

theorem Meets.last {C : σ → α → Prop} {start s : σ} {actions : List α} {a : α}
    (meets : Meets step C start (actions ++ [a])) (run : exec step start actions = some s) :
    C s a :=
  meets actions a [] s rfl run

/-- What holds at the start and is kept by the steps that meet `C`, where an invariant holds,
holds along a run of such steps. -/
theorem along_of_meets_within {I Q : σ → Prop} {C : σ → α → Prop} {start : σ} {actions : List α}
    (held : Along step I start actions) (first : Q start)
    (keeps : ∀ s a s', I s → Q s → C s a → step s a = some s' → Q s')
    (meets : Meets step C start actions) : Along step Q start actions := by
  intro before after s shape run
  subst shape
  have early : Along step I start before := held.front
  have front : Meets step C start before := meets.front
  clear meets held
  induction before using List.reverseRecOn generalizing s with
  | nil =>
      cases run
      exact first
  | append_singleton before a ih =>
      obtain ⟨middle, earlier, taken⟩ := exec_snoc_inv run
      exact keeps middle a s (early before [a] middle rfl earlier)
        (ih middle earlier early.front front.front) (front.last earlier) taken

/-- The same with no invariant. -/
theorem along_of_meets {I : σ → Prop} {C : σ → α → Prop} {start : σ} {actions : List α}
    (first : I start) (keeps : ∀ s a s', I s → C s a → step s a = some s' → I s')
    (meets : Meets step C start actions) : Along step I start actions :=
  along_of_meets_within (I := fun _ => True) (fun _ _ _ _ _ => trivial) first
    (fun s a s' _ => keeps s a s') meets

/-- Where an invariant holds, one condition on the actions may take the place of another. -/
theorem Meets.imp {I : σ → Prop} {C D : σ → α → Prop} {start : σ} {actions : List α}
    (along : Along step I start actions) (gives : ∀ s a, I s → C s a → D s a)
    (meets : Meets step C start actions) : Meets step D start actions := by
  intro before a after s shape run
  exact gives s a (along before (a :: after) s shape run) (meets before a after s shape run)

/-- A property that only the steps that meet `C` keep holds along a run just when all its actions
meet `C`. -/
theorem along_iff_meets {I Q : σ → Prop} {C : σ → α → Prop} {start last : σ} {actions : List α}
    (run : exec step start actions = some last) (held : Along step I start actions)
    (first : Q start) (keeps : ∀ s a s', I s → Q s → C s a → step s a = some s' → Q s')
    (needs : ∀ s a s', I s → step s a = some s' → Q s' → C s a) :
    Along step Q start actions ↔ Meets step C start actions := by
  refine ⟨fun along before a after s shape reached => ?_,
    along_of_meets_within held first keeps⟩
  obtain ⟨s', next⟩ : ∃ s', step s a = some s' := by
    rw [shape] at run
    obtain ⟨middle, early, rest⟩ := exec_append_inv run
    rw [reached] at early
    cases early
    rw [exec] at rest
    cases taken : step s a with
    | none => rw [taken] at rest; cases rest
    | some s' => exact ⟨s', rfl⟩
  exact needs s a s' (held before (a :: after) s shape reached) next
    (along.taken ⟨before, after, shape, reached, next⟩)

/-- What holds at the start and is kept by every step holds along every run. -/
theorem along_of_keeps {I : σ → Prop} {start : σ} (first : I start)
    (keeps : ∀ s a s', I s → step s a = some s' → I s') (actions : List α) :
    Along step I start actions :=
  along_of_meets (C := fun _ _ => True) first (fun s a s' holds _ => keeps s a s' holds)
    fun _ _ _ _ _ _ => trivial

end

end Run
