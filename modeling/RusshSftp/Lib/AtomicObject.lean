import RusshSftp.Lib.Refinement

/-!
# Calls on an object that serves them one at a time

A call is invoked with a request, is served at most once, and ends by returning what it was
served or by failing.  A call that has failed may be served all the same, or later.  What the
callers see of a run is explained by the order in which the object has served the calls.
-/

set_option autoImplicit false

namespace AtomicObject

/-- A call: it has ended once it has returned or failed. -/
structure Entry (ρ α : Type) where
  request : ρ
  answer : Option α
  ended : Bool
deriving DecidableEq

/-- The service of one call; the object sees the tag with the request. -/
structure Service (ι κ ρ : Type) where
  call : ι
  tag : κ
  request : ρ
deriving DecidableEq

structure State (ι κ ρ α σ : Type) where
  object : σ
  /-- The services so far. -/
  served : List (Service ι κ ρ)
  calls : ι → Option (Entry ρ α)

inductive Action (ι κ ρ α : Type) where
  | invoke (i : ι) (request : ρ)
  | serve (service : Service ι κ ρ)
  | returns (i : ι) (answer : α)
  | fails (i : ι)

/-- What is seen of a call. -/
inductive Label (ι ρ α : Type) where
  | invoke (i : ι) (request : ρ)
  | returns (i : ι) (answer : α)
  | fails (i : ι)
deriving DecidableEq

section
variable {ι κ ρ α σ : Type}

def Action.label : Action ι κ ρ α → Option (Label ι ρ α)
  | .invoke i request => some (.invoke i request)
  | .serve _ => none
  | .returns i answer => some (.returns i answer)
  | .fails i => some (.fails i)

namespace State

def new (object : σ) : State ι κ ρ α σ := ⟨object, [], fun _ => none⟩

def setCall [DecidableEq ι] (s : State ι κ ρ α σ) (i : ι) (entry : Entry ρ α) : State ι κ ρ α σ :=
  { s with calls := Function.update s.calls i (some entry) }

end State

section
variable [DecidableEq ι] [DecidableEq ρ] [DecidableEq α] (serve : κ → ρ → σ → α × σ)

def step (s : State ι κ ρ α σ) : Action ι κ ρ α → Option (State ι κ ρ α σ)
  | .invoke i request =>
      match s.calls i with
      | none => some (s.setCall i ⟨request, none, false⟩)
      | some _ => none
  | .serve service =>
      match s.calls service.call with
      | some entry =>
          if entry.request = service.request ∧ entry.answer = none then
            let (answer, object) := serve service.tag service.request s.object
            some { s.setCall service.call { entry with answer := some answer } with
              object, served := s.served ++ [service] }
          else none
      | none => none
  | .returns i answer =>
      match s.calls i with
      | some entry =>
          if entry.answer = some answer ∧ entry.ended = false then
            some (s.setCall i { entry with ended := true })
          else none
      | none => none
  | .fails i =>
      match s.calls i with
      | some entry =>
          if entry.ended = false then some (s.setCall i { entry with ended := true }) else none
      | none => none

/-- The object after some services. -/
def after (object : σ) (order : List (Service ι κ ρ)) : σ :=
  order.foldl (fun object service => (serve service.tag service.request object).2) object

end

/-- An order of services explains what was seen: each call is served at most once and after it is
invoked; what a call returns is its answer in this order; and a call that has returned stands
before each call that is invoked afterwards. -/
structure Explains (serve : κ → ρ → σ → α × σ) (start : σ) (labels : List (Label ι ρ α))
    (order : List (Service ι κ ρ)) : Prop where
  once : (order.map Service.call).Nodup
  invoked : ∀ service ∈ order, .invoke service.call service.request ∈ labels
  returned : ∀ i answer, .returns i answer ∈ labels → ∃ front service back,
    order = front ++ service :: back ∧ service.call = i ∧
      answer = (serve service.tag service.request (after serve start front)).1
  ordered : ∀ before between later i answer j request,
    labels = before ++ .returns i answer :: (between ++ .invoke j request :: later) →
      ∃ front back, order = front ++ back ∧ i ∈ front.map Service.call ∧
        j ∉ front.map Service.call

/-! ## One step -/

namespace State

section
variable [DecidableEq ι]

theorem setCall_calls (s : State ι κ ρ α σ) (i j : ι) (entry : Entry ρ α) :
    (s.setCall i entry).calls j = if j = i then some entry else s.calls j := by
  exact Function.update_apply s.calls i (some entry) j

@[simp] theorem setCall_same (s : State ι κ ρ α σ) (i : ι) (entry : Entry ρ α) :
    (s.setCall i entry).calls i = some entry := by
  rw [setCall_calls, if_pos rfl]

theorem setCall_other (s : State ι κ ρ α σ) {i j : ι} (entry : Entry ρ α) (other : j ≠ i) :
    (s.setCall i entry).calls j = s.calls j := by
  rw [setCall_calls, if_neg other]

end

end State

theorem after_snoc (serve : κ → ρ → σ → α × σ) (start : σ) (order : List (Service ι κ ρ))
    (service : Service ι κ ρ) :
    after serve start (order ++ [service]) =
      (serve service.tag service.request (after serve start order)).2 := by
  rw [after, List.foldl_append]
  rfl

section
variable [DecidableEq ι] [DecidableEq ρ] [DecidableEq α] {serve : κ → ρ → σ → α × σ}

/-- The cases of a step. -/
inductive Stepped (serve : κ → ρ → σ → α × σ) (s : State ι κ ρ α σ) :
    Action ι κ ρ α → State ι κ ρ α σ → Prop
  | invoke {i request} (fresh : s.calls i = none) :
      Stepped serve s (.invoke i request) (s.setCall i ⟨request, none, false⟩)
  | serve {service entry} (present : s.calls service.call = some entry)
      (request : entry.request = service.request) (first : entry.answer = none) :
      Stepped serve s (.serve service)
        { s.setCall service.call { entry with
            answer := some (serve service.tag service.request s.object).1 } with
          object := (serve service.tag service.request s.object).2
          served := s.served ++ [service] }
  | returns {i answer entry} (present : s.calls i = some entry)
      (answered : entry.answer = some answer) (running : entry.ended = false) :
      Stepped serve s (.returns i answer) (s.setCall i { entry with ended := true })
  | fails {i entry} (present : s.calls i = some entry) (running : entry.ended = false) :
      Stepped serve s (.fails i) (s.setCall i { entry with ended := true })

theorem stepped {s s' : State ι κ ρ α σ} {action : Action ι κ ρ α}
    (taken : step serve s action = some s') : Stepped serve s action s' := by
  cases action with
  | invoke i request =>
      rw [step] at taken
      cases fresh : s.calls i with
      | some entry => rw [fresh] at taken; cases taken
      | none =>
          rw [fresh] at taken
          cases taken
          exact .invoke fresh
  | serve service =>
      rw [step] at taken
      cases present : s.calls service.call with
      | none => rw [present] at taken; cases taken
      | some entry =>
          rw [present] at taken
          dsimp only at taken
          split at taken
          · rename_i guards
            cases taken
            exact .serve present guards.1 guards.2
          · cases taken
  | returns i answer =>
      rw [step] at taken
      cases present : s.calls i with
      | none => rw [present] at taken; cases taken
      | some entry =>
          rw [present] at taken
          dsimp only at taken
          split at taken
          · rename_i guards
            cases taken
            exact .returns present guards.1 guards.2
          · cases taken
  | fails i =>
      rw [step] at taken
      cases present : s.calls i with
      | none => rw [present] at taken; cases taken
      | some entry =>
          rw [present] at taken
          dsimp only at taken
          split at taken
          · rename_i running
            cases taken
            exact .fails present running
          · cases taken

/-- A call stays, with its request, and with its answer once it has one. -/
theorem entry_after {s s' : State ι κ ρ α σ} {action : Action ι κ ρ α}
    (taken : step serve s action = some s') {i : ι} {entry : Entry ρ α}
    (present : s.calls i = some entry) :
    ∃ entry', s'.calls i = some entry' ∧ entry'.request = entry.request ∧
      (∀ answer, entry.answer = some answer → entry'.answer = some answer) := by
  have keep (j : ι) (old new : Entry ρ α) (at_j : s.calls j = some old)
      (request : new.request = old.request)
      (answer : ∀ answer, old.answer = some answer → new.answer = some answer) :
      ∃ entry', (s.setCall j new).calls i = some entry' ∧ entry'.request = entry.request ∧
        (∀ answer, entry.answer = some answer → entry'.answer = some answer) := by
    rw [State.setCall_calls]
    by_cases same : i = j
    · rw [if_pos same]
      rw [same, at_j] at present
      cases present
      exact ⟨new, rfl, request, answer⟩
    · rw [if_neg same]
      exact ⟨entry, present, rfl, fun _ h => h⟩
  cases stepped taken with
  | @invoke j request fresh =>
      have other : i ≠ j := by
        rintro rfl
        rw [present] at fresh
        cases fresh
      exact ⟨entry, (s.setCall_other _ other).trans present, rfl, fun _ h => h⟩
  | serve at_j request first =>
      refine keep _ _ _ at_j rfl ?_
      intro answer answered
      rw [first] at answered
      cases answered
  | returns at_j | fails at_j => exact keep _ _ _ at_j rfl fun _ h => h

/-! ## A whole run -/

/-- What a run has done so far: the object is the one after its services, each call with an answer
was served once, and the others not at all. -/
structure Log (serve : κ → ρ → σ → α × σ) (start : σ) (s : State ι κ ρ α σ) : Prop where
  object : s.object = after serve start s.served
  once : (s.served.map Service.call).Nodup
  present : ∀ service ∈ s.served, ∃ entry, s.calls service.call = some entry ∧
    entry.request = service.request ∧ entry.answer ≠ none
  answered : ∀ i entry answer, s.calls i = some entry → entry.answer = some answer →
    ∃ front service back, s.served = front ++ service :: back ∧ service.call = i ∧
      answer = (serve service.tag service.request (after serve start front)).1

theorem Log.stays {start : σ} {s s' : State ι κ ρ α σ} {action : Action ι κ ρ α}
    (log : Log serve start s) (taken : step serve s action = some s')
    (object : s'.object = s.object) (served : s'.served = s.served)
    (back : ∀ i entry answer, s'.calls i = some entry → entry.answer = some answer →
      ∃ old, s.calls i = some old ∧ old.answer = some answer) : Log serve start s' where
  object := by rw [object, served, log.object]
  once := served ▸ log.once
  present := by
    intro service member
    rw [served] at member
    obtain ⟨entry, present, request, given⟩ := log.present service member
    obtain ⟨entry', after, same, kept⟩ := entry_after taken present
    obtain ⟨answer, answered⟩ := Option.ne_none_iff_exists'.mp given
    exact ⟨entry', after, same.trans request, by rw [kept answer answered]; simp⟩
  answered := by
    intro i entry answer present answered
    obtain ⟨old, before, same⟩ := back i entry answer present answered
    rw [served]
    exact log.answered i old answer before same

theorem Log.step {start : σ} {s s' : State ι κ ρ α σ} {action : Action ι κ ρ α}
    (log : Log serve start s) (taken : step serve s action = some s') : Log serve start s' := by
  have same_call (i : ι) (old new : Entry ρ α) (at_i : s.calls i = some old)
      (answer : new.answer = old.answer) (j : ι) (entry : Entry ρ α) (a : α)
      (present : (s.setCall i new).calls j = some entry) (answered : entry.answer = some a) :
      ∃ old, s.calls j = some old ∧ old.answer = some a := by
    rw [State.setCall_calls] at present
    by_cases same : j = i
    · rw [if_pos same] at present
      cases present
      exact ⟨old, same ▸ at_i, answer ▸ answered⟩
    · rw [if_neg same] at present
      exact ⟨entry, present, answered⟩
  cases stepped taken with
  | @invoke i request fresh =>
      refine log.stays taken rfl rfl ?_
      intro j entry answer present answered
      rw [State.setCall_calls] at present
      by_cases same : j = i
      · rw [if_pos same] at present
        cases present
        cases answered
      · rw [if_neg same] at present
        exact ⟨entry, present, answered⟩
  | returns at_i | fails at_i => exact log.stays taken rfl rfl (same_call _ _ _ at_i rfl)
  | @serve service entry at_i request first =>
      have unserved : service.call ∉ s.served.map Service.call := by
        intro member
        obtain ⟨other, listed, same⟩ := List.mem_map.mp member
        obtain ⟨entry', present, _, given⟩ := log.present other listed
        rw [same, at_i] at present
        cases present
        exact given first
      refine ⟨?_, ?_, ?_, ?_⟩
      · rw [after_snoc, ← log.object]
      · rw [List.map_append]
        refine List.nodup_append.mpr ⟨log.once, List.nodup_singleton _, ?_⟩
        rintro i member _ single rfl
        exact unserved (List.mem_singleton.mp single ▸ member)
      · intro other member
        rcases List.mem_append.mp member with earlier | now
        · obtain ⟨entry', present, same, given⟩ := log.present other earlier
          have apart : other.call ≠ service.call := fun same =>
            unserved (same ▸ List.mem_map_of_mem earlier)
          exact ⟨entry', (s.setCall_other _ apart).trans present, same, given⟩
        · rw [List.mem_singleton.mp now]
          exact ⟨_, State.setCall_same _ _ _, request, by simp⟩
      · intro j entry' answer present answered
        replace present : (s.setCall service.call _).calls j = some entry' := present
        rw [State.setCall_calls] at present
        by_cases same : j = service.call
        · rw [if_pos same] at present
          cases present
          cases answered
          exact ⟨s.served, service, [], rfl, same.symm, by rw [log.object]⟩
        · rw [if_neg same] at present
          obtain ⟨front, other, back, shape, call, value⟩ := log.answered j entry' answer present
            answered
          exact ⟨front, other, back ++ [service], by rw [shape]; simp, call, value⟩

theorem log_of_exec {start : σ} {actions : List (Action ι κ ρ α)} {s : State ι κ ρ α σ}
    (run : Run.exec (step serve) (State.new start) actions = some s) : Log serve start s := by
  refine (Run.along_of_keeps ?_ (fun _ _ _ log taken => log.step taken) actions).last run
  exact ⟨rfl, List.nodup_nil, (by intro _ member; cases member), by intro _ _ _ h; cases h⟩

/-- Services are added at the end. -/
theorem served_prefix {s s' : State ι κ ρ α σ} {actions : List (Action ι κ ρ α)}
    (run : Run.exec (step serve) s actions = some s') : s.served <+: s'.served := by
  refine (Run.along_of_keeps (I := fun t => s.served <+: t.served) List.prefix_rfl
    (fun t action t' before taken => ?_) actions).last run
  cases stepped taken with
  | serve => exact before.trans (List.prefix_append _ _)
  | _ => exact before

/-- A call that is there was invoked. -/
theorem invoked_of_exec {start : σ} {actions : List (Action ι κ ρ α)} {s : State ι κ ρ α σ}
    (run : Run.exec (step serve) (State.new start) actions = some s) :
    ∀ i entry, s.calls i = some entry → .invoke i entry.request ∈ actions := by
  refine Run.exec_induction (P := fun actions s =>
    ∀ i entry, s.calls i = some entry → .invoke i entry.request ∈ actions) ?_ ?_ actions s run
  · intro i entry present
    cases present
  · intro actions s action s' _ ih taken i entry present
    rw [List.mem_append, List.mem_singleton]
    have moved (j : ι) (old new : Entry ρ α) (at_j : s.calls j = some old)
        (after : (s.setCall j new).calls i = some entry) (request : new.request = old.request) :
        .invoke i entry.request ∈ actions := by
      rw [State.setCall_calls] at after
      by_cases same : i = j
      · rw [if_pos same] at after
        cases after
        rw [request]
        exact ih i old (same ▸ at_j)
      · rw [if_neg same] at after
        exact ih i entry after
    cases stepped taken with
    | @invoke j request fresh =>
        rw [State.setCall_calls] at present
        by_cases same : i = j
        · rw [if_pos same] at present
          cases present
          exact .inr (by rw [same])
        · rw [if_neg same] at present
          exact .inl (ih i entry present)
    | serve at_j | returns at_j | fails at_j => exact .inl (moved _ _ _ at_j present rfl)

/-- What a call has returned is its answer for good. -/
theorem returned_of_exec {start : σ} {actions : List (Action ι κ ρ α)} {s : State ι κ ρ α σ}
    (run : Run.exec (step serve) (State.new start) actions = some s) :
    ∀ i answer, .returns i answer ∈ actions →
      ∃ entry, s.calls i = some entry ∧ entry.answer = some answer := by
  refine Run.exec_induction (P := fun actions s => ∀ i answer, .returns i answer ∈ actions →
    ∃ entry, s.calls i = some entry ∧ entry.answer = some answer) ?_ ?_ actions s run
  · intro i answer member
    cases member
  · intro actions s action s' _ ih taken i answer member
    rcases List.mem_append.mp member with earlier | now
    · obtain ⟨entry, present, answered⟩ := ih i answer earlier
      obtain ⟨entry', after, _, kept⟩ := entry_after taken present
      exact ⟨entry', after, kept answer answered⟩
    · cases List.mem_singleton.mp now
      cases stepped taken with
      | returns present answered running => exact ⟨_, State.setCall_same _ _ _, answered⟩

/-- The services of every run explain its labels. -/
theorem explains {start : σ} {actions : List (Action ι κ ρ α)} {s : State ι κ ρ α σ}
    (run : Run.exec (step serve) (State.new start) actions = some s) :
    Explains serve start (actions.filterMap Action.label) s.served := by
  have log := log_of_exec run
  refine ⟨log.once, ?_, ?_, ?_⟩
  · intro service member
    obtain ⟨entry, present, request, _⟩ := log.present service member
    have invoked := invoked_of_exec run service.call entry present
    rw [request] at invoked
    exact List.mem_filterMap.mpr ⟨_, invoked, rfl⟩
  · intro i answer member
    obtain ⟨action, taken, label⟩ := List.mem_filterMap.mp member
    have same : action = .returns i answer := by
      cases action <;> cases label
      rfl
    obtain ⟨entry, present, answered⟩ := returned_of_exec run i answer (same ▸ taken)
    exact log.answered i entry answer present answered
  · intro before between later i answer j request shape
    obtain ⟨early, rest, rfl, _, shape⟩ := List.filterMap_eq_append_iff.mp shape
    obtain ⟨none, returning, rest, rfl, _, first, shape⟩ := List.filterMap_eq_cons_iff.mp shape
    obtain ⟨middle, rest, rfl, _, shape⟩ := List.filterMap_eq_append_iff.mp shape
    obtain ⟨none', invoking, rest, rfl, _, second, _⟩ := List.filterMap_eq_cons_iff.mp shape
    have returns : returning = .returns i answer := by
      cases returning <;> cases first
      rfl
    have invokes : invoking = .invoke j request := by
      cases invoking <;> cases second
      rfl
    subst returns invokes
    have split : early ++ (none ++ .returns i answer :: (middle ++ (none' ++
        .invoke j request :: rest))) =
        (early ++ none ++ .returns i answer :: (middle ++ none')) ++ .invoke j request :: rest := by
      simp
    rw [split] at run
    obtain ⟨t, front, back⟩ := Run.exec_append_inv run
    have log' := log_of_exec front
    obtain ⟨later, order⟩ := served_prefix back
    refine ⟨t.served, later, order.symm, ?_, ?_⟩
    · obtain ⟨entry, present, answered⟩ := returned_of_exec front i answer (by simp)
      obtain ⟨_, service, _, order, call, _⟩ := log'.answered i entry answer present answered
      rw [order, ← call]
      simp
    · intro member
      obtain ⟨service, listed, same⟩ := List.mem_map.mp member
      obtain ⟨entry, present, _⟩ := log'.present service listed
      rw [Run.exec] at back
      cases taken : step serve t (.invoke j request) with
      | none => rw [taken] at back; cases back
      | some next =>
          cases stepped taken with
          | invoke fresh =>
              rw [← same, present] at fresh
              cases fresh

end

end

end AtomicObject
