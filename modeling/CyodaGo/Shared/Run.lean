import Mathlib.Tactic.TypeStar

/-! # Runs of a guarded transition system

`step` is a partial function: `none` means that the action is not enabled. A run
records what it did, newest event first, so that every history variable is a function
of the record. `allowed` restricts runs to those whose every step meets a condition on
the record and the state before it. -/

structure Event (σ α ω : Type*) where
  before : σ
  action : α
  result : ω
  after : σ

variable {σ α ω : Type*}

/-- `Run step allowed start tr s`: allowed steps lead from `start` to `s` and leave the
record `tr`. -/
inductive Run (step : σ → α → Option (ω × σ)) (allowed : List (Event σ α ω) → σ → α → Prop)
    (start : σ) : List (Event σ α ω) → σ → Prop where
  | nil : Run step allowed start [] start
  | cons {tr : List (Event σ α ω)} {s s' : σ} {r : ω} (a : α) :
      Run step allowed start tr s → allowed tr s a → step s a = some (r, s') →
      Run step allowed start (⟨s, a, r, s'⟩ :: tr) s'

/-- No restriction on the steps of a run. -/
def AnyStep (_ : List (Event σ α ω)) (_ : σ) (_ : α) : Prop := True

namespace Run

variable {step : σ → α → Option (ω × σ)} {allowed allowed' : List (Event σ α ω) → σ → α → Prop}
  {start s t : σ} {tr : List (Event σ α ω)}

/-- A property of record and state kept by every allowed step holds all along a run. -/
theorem inv {I : List (Event σ α ω) → σ → Prop} (h0 : I [] start)
    (hstep : ∀ tr x a r y, I tr x → allowed tr x a → step x a = some (r, y) →
      I (⟨x, a, r, y⟩ :: tr) y)
    (h : Run step allowed start tr s) : I tr s := by
  induction h with
  | nil => exact h0
  | cons a _ ha hs ih => exact hstep _ _ a _ _ ih ha hs

theorem mono (hle : ∀ tr x a, allowed tr x a → allowed' tr x a)
    (h : Run step allowed start tr s) : Run step allowed' start tr s := by
  induction h with
  | nil => exact .nil
  | cons a _ ha hs ih => exact .cons a ih (hle _ _ a ha) hs

variable {ev : Event σ α ω}

theorem of_append {newer older : List (Event σ α ω)}
    (h : Run step allowed start (newer ++ ev :: older) s) :
    Run step allowed start older ev.before ∧ allowed older ev.before ev.action ∧
      step ev.before ev.action = some (ev.result, ev.after) := by
  induction newer generalizing s with
  | nil =>
    cases h with
    | cons a hrun ha hs => exact ⟨hrun, ha, hs⟩
  | cons e newer ih =>
    cases h with
    | cons a hrun _ _ => exact ih hrun

/-- Every recorded event is a step taken after the run that the older events record. -/
theorem split (h : Run step allowed start tr s) (hev : ev ∈ tr) :
    ∃ newer older, tr = newer ++ ev :: older ∧ Run step allowed start older ev.before ∧
      allowed older ev.before ev.action ∧
      step ev.before ev.action = some (ev.result, ev.after) := by
  obtain ⟨newer, older, rfl⟩ := List.append_of_mem hev
  exact ⟨newer, older, rfl, h.of_append⟩

theorem of_mem (h : Run step allowed start tr s) (hev : ev ∈ tr) :
    ∃ tr', Run step allowed start tr' ev.before ∧ allowed tr' ev.before ev.action ∧
      step ev.before ev.action = some (ev.result, ev.after) := by
  obtain ⟨-, older, -, hrest⟩ := h.split hev
  exact ⟨older, hrest⟩

/-- A reflexive and transitive relation that contains every step relates the state after
any recorded event to the last state. -/
theorem rel_of_mem {R : σ → σ → Prop} (hrefl : ∀ x, R x x) (htrans : ∀ x y z, R x y → R y z → R x z)
    (hstep : ∀ x a r y, step x a = some (r, y) → R x y) (h : Run step allowed start tr s)
    (hev : ev ∈ tr) : R ev.after s := by
  induction h with
  | nil => cases hev
  | cons a hrun ha hs ih =>
    rcases List.mem_cons.mp hev with rfl | hev
    · exact hrefl _
    · exact htrans _ _ _ (ih hev) (hstep _ a _ _ hs)

/-- The record determines the state. -/
theorem unique (h : Run step allowed start tr s) (h' : Run step allowed start tr t) : s = t := by
  cases h with
  | nil =>
    cases h'
    rfl
  | cons a _ _ _ =>
    cases h'
    rfl

/-- What every step keeps still holds when the run goes on. -/
theorem stable_of_append {P : σ → Prop}
    (hstep : ∀ x a r y, P x → step x a = some (r, y) → P y) {newer : List (Event σ α ω)}
    (h : Run step allowed start tr s) (hs : P s) (h' : Run step allowed start (newer ++ tr) t) :
    P t := by
  induction newer generalizing t with
  | nil => exact h.unique h' ▸ hs
  | cons ev newer ih =>
    cases h' with
    | cons a hrun _ ht => exact hstep _ a _ _ (ih hrun) ht

end Run

/-! ## Executing a list of actions -/

/-- The record and the state after a list of actions, when each passes the test `ok`
and is enabled in turn. -/
def execute (step : σ → α → Option (ω × σ)) (ok : List (Event σ α ω) → σ → α → Bool) :
    List (Event σ α ω) → σ → List α → Option (List (Event σ α ω) × σ)
  | tr, s, [] => some (tr, s)
  | tr, s, a :: as =>
    if ok tr s a then
      match step s a with
      | none => none
      | some (r, s') => execute step ok (⟨s, a, r, s'⟩ :: tr) s' as
    else none

variable {allowed : List (Event σ α ω) → σ → α → Prop} {ok : List (Event σ α ω) → σ → α → Bool}
  {start : σ} {check : List (Event σ α ω) → σ → Bool}

theorem run_of_execute {step : σ → α → Option (ω × σ)}
    (hok : ∀ tr s a, ok tr s a = true → allowed tr s a) {s s' : σ} {tr tr' : List (Event σ α ω)}
    (as : List α) (h : Run step allowed start tr s) (he : execute step ok tr s as = some (tr', s'))
    : Run step allowed start tr' s' := by
  induction as generalizing tr s with
  | nil =>
    cases he
    exact h
  | cons a as ih =>
    rw [execute] at he
    cases ha : ok tr s a with
    | false => simp [ha] at he
    | true =>
      cases hs : step s a with
      | none => simp [ha, hs] at he
      | some p =>
        obtain ⟨r, s1⟩ := p
        simp only [ha, hs, if_true] at he
        exact ih (.cons a h (hok _ _ _ ha) hs) he

/-- The record of an execution lists its actions, newest first. -/
theorem execute_actions {step : σ → α → Option (ω × σ)} {s s' : σ} {tr tr' : List (Event σ α ω)}
    (as : List α) (h : execute step ok tr s as = some (tr', s')) :
    tr'.map (·.action) = as.reverse ++ tr.map (·.action) := by
  induction as generalizing tr s with
  | nil =>
    cases h
    rfl
  | cons a as ih =>
    rw [execute] at h
    cases ha : ok tr s a with
    | false => simp [ha] at h
    | true =>
      cases hs : step s a with
      | none => simp [ha, hs] at h
      | some p =>
        simp only [ha, hs, if_true] at h
        simpa using ih h

/-- A run with the given actions whose record and last state pass a decidable check. -/
theorem exists_actions_of_execute {step : σ → α → Option (ω × σ)}
    (hok : ∀ tr s a, ok tr s a = true → allowed tr s a) (as : List α)
    (h : (execute step ok [] start as).any (fun p => check p.1 p.2) = true) :
    ∃ tr s, Run step allowed start tr s ∧ tr.map (·.action) = as.reverse ∧ check tr s = true := by
  cases he : execute step ok [] start as with
  | none => simp [he] at h
  | some p =>
    rw [he] at h
    have hactions := execute_actions as he
    rw [List.map_nil, List.append_nil] at hactions
    exact ⟨p.1, p.2, run_of_execute hok as .nil he, hactions, h⟩

theorem exists_run_of_execute {step : σ → α → Option (ω × σ)}
    (hok : ∀ tr s a, ok tr s a = true → allowed tr s a) (as : List α)
    (h : (execute step ok [] start as).any (fun p => check p.1 p.2) = true) :
    ∃ tr s, Run step allowed start tr s ∧ check tr s = true := by
  obtain ⟨tr, s, hrun, -, hcheck⟩ := exists_actions_of_execute hok as h
  exact ⟨tr, s, hrun, hcheck⟩

theorem exists_any_of_execute {step : σ → α → Option (ω × σ)} (as : List α)
    (h : (execute step (fun _ _ _ => true) [] start as).any (fun p => check p.1 p.2) = true) :
    ∃ tr s, Run step AnyStep start tr s ∧ check tr s = true :=
  exists_run_of_execute (fun _ _ _ _ => trivial) as h
