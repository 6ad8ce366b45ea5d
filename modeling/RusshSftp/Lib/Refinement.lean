import RusshSftp.Lib.Run

/-!
# What a run shows, and runs that show the same

A run is seen from outside through labels: each step shows one or none.  One system refines
another if each of its runs is followed by a run of the other that shows the same labels; it is
enough to follow single steps along a relation of the states.
-/

set_option autoImplicit false

namespace Run

section
variable {σ α γ : Type} (step : σ → α → Option σ) (vis : σ → α → σ → Option γ)

/-- The labels of a run, in their order. -/
def trace : σ → List α → List γ
  | _, [] => []
  | s, a :: rest =>
      match step s a with
      | some next => (vis s a next).toList ++ trace next rest
      | none => []

variable {step vis}

theorem trace_append {start s : σ} {first : List α} (second : List α)
    (run : exec step start first = some s) :
    trace step vis start (first ++ second) =
      trace step vis start first ++ trace step vis s second := by
  induction first generalizing start with
  | nil =>
      cases run
      rfl
  | cons a rest ih =>
      rw [exec] at run
      rw [List.cons_append, trace, trace]
      cases stepped : step start a with
      | none => rw [stepped] at run; cases run
      | some next =>
          rw [stepped] at run
          dsimp only
          rw [ih run, List.append_assoc]

theorem trace_single {s s' : σ} {a : α} (taken : step s a = some s') :
    trace step vis s [a] = (vis s a s').toList := by
  rw [trace, taken]
  exact List.append_nil _

/-- Labels that the actions have by themselves. -/
theorem trace_eq_filterMap {label : α → Option γ} {start s : σ} {actions : List α}
    (run : exec step start actions = some s) :
    trace step (fun _ a _ => label a) start actions = actions.filterMap label := by
  induction actions generalizing start with
  | nil => rfl
  | cons a rest ih =>
      rw [exec] at run
      rw [trace, List.filterMap_cons]
      cases stepped : step start a with
      | none => rw [stepped] at run; cases run
      | some next =>
          rw [stepped] at run
          dsimp only
          rw [ih run]
          cases label a <;> rfl

/-- A run is followed by another that shows the same, if each of its steps is.  The relation of the
states may speak of the past. -/
theorem refines {τ β : Type} {step' : τ → β → Option τ} {vis' : τ → β → τ → Option γ}
    {R : List α → σ → τ → Prop} {start : σ} {start' : τ} (first : R [] start start')
    (actions : List α)
    (follows : ∀ before a after s s' t, actions = before ++ a :: after →
      exec step start before = some s → R before s t → step s a = some s' →
      ∃ bs t', exec step' t bs = some t' ∧ R (before ++ [a]) s' t' ∧
        trace step' vis' t bs = (vis s a s').toList) :
    ∀ s, exec step start actions = some s → ∃ bs t, exec step' start' bs = some t ∧
      R actions s t ∧ trace step' vis' start' bs = trace step vis start actions := by
  induction actions using List.reverseRecOn with
  | nil =>
      rintro s ⟨⟩
      exact ⟨[], start', rfl, first, rfl⟩
  | append_singleton actions a ih =>
      intro s' run
      obtain ⟨s, before, taken⟩ := exec_snoc_inv run
      have earlier : ∀ before a' after s s' t, actions = before ++ a' :: after →
          exec step start before = some s → R before s t → step s a' = some s' →
          ∃ bs t', exec step' t bs = some t' ∧ R (before ++ [a']) s' t' ∧
            trace step' vis' t bs = (vis s a' s').toList := by
        intro before a' after s s' t shape
        exact follows before a' (after ++ [a]) s s' t (by rw [shape]; simp)
      obtain ⟨bs, t, run', related, same⟩ := ih earlier s before
      obtain ⟨more, t', further, related', shown⟩ :=
        follows actions a [] s s' t rfl before related taken
      refine ⟨bs ++ more, t', ?_, related', ?_⟩
      · rw [exec_append, run']
        exact further
      · rw [trace_append more run', same, shown, trace_append [a] before, trace_single taken]

end

/-! ## Work that comes to an end -/

section
variable {σ α : Type} {step : σ → α → Option σ}

/-- If each of some steps leaves less work than there was, every run of such steps ends. -/
theorem ends {ω : Type} {less : ω → ω → Prop} (founded : WellFounded less) (work : σ → ω)
    {I : σ → Prop} {own : σ → α → Prop}
    (fewer : ∀ s a s', I s → own s a → step s a = some s' → I s' ∧ less (work s') (work s))
    (s : σ) (holds : I s) : Acc (fun s' s => ∃ a, own s a ∧ step s a = some s') s := by
  induction left : work s using founded.induction generalizing s with
  | _ left' ih =>
      subst left
      refine Acc.intro s ?_
      rintro s' ⟨a, ours, taken⟩
      obtain ⟨kept, less⟩ := fewer s a s' holds ours taken
      exact ih (work s') less s' kept rfl

end

end Run
